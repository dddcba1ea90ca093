import Libp2px.Vtcp.SenderStep

/-!
# The timers of the sender

When the sender has a timer armed as long as there is something to send or to be acknowledged.
-/

namespace Libp2px.Vtcp

open Transition CongestionController

variable {σ : Type} [CongestionController σ]

namespace Host

open Conn

/-- The step leaves the sender a timer: the keepalive and persist timers find another one armed or nothing waiting, a
`Write` that does not fit finds one armed, and a flush with nothing outstanding is not stopped. -/
def KeepsTimer (h : Host σ) (e : Event) : Prop :=
  match e with
  | .keepalive now => h.conn.closed = false → h.conn.keepaliveExpired now = false → h.conn.sends → h.conn.Waiting →
      h.conn.rtoTimer.isSome = true
  | .persist _ => h.conn.closed = false → h.conn.sends → 0 < h.conn.sndWnd → h.conn.Waiting →
      h.conn.rtoTimer.isSome = true ∨ h.conn.CanSend
  | .segment _ seg => h.conn.takesACK seg = true → seqAfter seg.ack h.conn.sendBuf.una = true →
      seg.ack = h.conn.sendBuf.nxt →
        h.conn.LimitsOpen (ccAfterACK h.conn.cc seg.ack (h.conn.sendBuf.acknowledge seg.ack).2)
  | e => ∀ rest ∈ h.toWrite e, h.conn.closed = false → h.conn.sends →
      if h.conn.fits rest then h.conn.sendBuf.una = h.conn.sendBuf.nxt → h.conn.LimitsOpen h.conn.cc
      else h.conn.Armed

instance (h : Host σ) (e : Event) : Decidable (h.KeepsTimer e) :=
  have writes (e : Event) : Decidable (∀ rest ∈ h.toWrite e, h.conn.closed = false → h.conn.sends →
      if h.conn.fits rest then h.conn.sendBuf.una = h.conn.sendBuf.nxt → h.conn.LimitsOpen h.conn.cc
      else h.conn.Armed) := inferInstance
  match e with
  | .keepalive _ => inferInstanceAs (Decidable (_ → _ → _ → _ → _))
  | .persist _ => inferInstanceAs (Decidable (_ → _ → _ → _ → _ ∨ _))
  | .segment _ _ => inferInstanceAs (Decidable (_ → _ → _ → _))
  | .connect _ _ | .acceptSYN _ _ _ | .acceptCookie _ _ _ _ | .setupForHandshake _ | .rto _ | .timeWait
  | .write _ _ | .resume _ _ | .read _ _ | .close _ | .abort | .setDeadline _ | .setReadDeadline _
  | .setWriteDeadline _ | .broadcastSend =>
    writes _

theorem KeepsTimer.write {h : Host σ} {e : Event} {rest : List Byte} (hP : h.KeepsTimer e)
    (he : h.toWrite e = some rest) (hcl : h.conn.closed = false) (hs : h.conn.sends) :
    if h.conn.fits rest then h.conn.sendBuf.una = h.conn.sendBuf.nxt → h.conn.LimitsOpen h.conn.cc
    else h.conn.Armed := by
  cases e with
  | write now b => exact hP rest he hcl hs
  | resume now i => exact hP rest he hcl hs
  | _ => cases he

theorem armed_step {h : Host σ} {e : Event} {d : Conn σ} (ih : h.conn.sends → h.conn.Waiting → h.conn.Armed)
    (hP : h.KeepsTimer e) (hstep : SenderStep e h d) (hw : d.Waiting) : d.Armed := by
  cases hstep with
  | frame hs hd => exact hd.armed.2 (ih hs (hd.waiting.1 hw))
  | opened he hd hc => exact absurd hw hd.not_waiting
  | resent hs hd ha => exact ha
  | acked he hs ht hd =>
    subst he
    cases hd with
    | same hd => exact hd.armed.2 (ih hs (hd.waiting.1 hw))
    | resent hd ha => exact ha
    | acked hlo hhi hcov hc => exact hcov (hP ht hlo) hw
  | probed he hs hbuf hcap ha hc => exact ha
  | @flushed now he hs hcl hwnd hd =>
    subst he
    have hw' := hd.waiting.1 hw
    rw [hd.armed]
    by_cases hcw : h.conn.Waiting
    · rcases hP hcl hs hwnd hcw with hrto | hcan
      · exact Armed.flushSendQueue (c := h.conn.stopPersist) (.inl hrto) now
      · exact (armed_flushSendQueue_of_canSend (c := h.conn.stopPersist) now hcan).1
    · -- a flush with nothing to send leaves nothing waiting
      have hsent : h.conn.sendBuf.pending ≤ 0 := by
        by_contra hp
        exact hcw (.inr (by omega))
      have hsb := sendBuf_flushSendQueue_of_sent (c := h.conn.stopPersist) now hsent
      have hdata : SameData h.conn (flushSendQueue now h.conn.stopPersist) :=
        SameData.of_sendBuf hsb (by rw [sendCond_flushSendQueue]; exact le_rfl)
      exact absurd (hdata.waiting.1 hw') hcw
  | kept he hs hcl hk hd hr =>
    subst he
    left
    rw [hr]
    exact hP hcl hk hs (hd.waiting.1 hw)
  | filled he hs hcl hfit hd =>
    have hc := hP.write he hcl hs
    rw [hfit] at hc
    exact hd.armed.2 hc
  | @wrote rest now he hs hcl hfit hd =>
    have hc := hP.write he hcl hs
    rw [hfit] at hc
    have hua : (h.conn.sendBuf.write rest).1.una = h.conn.sendBuf.una ∧
        (h.conn.sendBuf.write rest).1.nxt = h.conn.sendBuf.nxt := by
      rw [SendBuf.write_eq]
      exact ⟨rfl, rfl⟩
    rw [hd.armed]
    refine waiting_flushSendQueue now ?_ ?_ (hd.waiting.1 hw)
    · intro hne
      have hne' : (h.conn.sendBuf.write rest).1.una ≠ (h.conn.sendBuf.write rest).1.nxt := hne
      rw [hua.1, hua.2] at hne'
      exact ih hs (.inl hne')
    · intro heq
      have heq' : (h.conn.sendBuf.write rest).1.una = (h.conn.sendBuf.write rest).1.nxt := heq
      rw [hua.1, hua.2] at heq'
      exact hc heq'

/-- In a run whose steps keep to `KeepsTimer`, the RTO or the persist timer is armed in ESTABLISHED and CLOSE-WAIT as
long as there is unacknowledged or unsent data. -/
theorem timer_armed_while_waiting {h : Host σ} (hr : (system σ).Reach KeepsTimer h)
    (hs : h.conn.state = .established ∨ h.conn.state = .closeWait)
    (hw : h.conn.sendBuf.una ≠ h.conn.sendBuf.nxt ∨ h.conn.sendBuf.pending > 0) :
    h.conn.rtoTimer.isSome = true ∨ h.conn.persistTimer.isSome = true := by
  have hinv : h.conn.sends → h.conn.Waiting → h.conn.Armed := by
    refine hr.invariant (I := fun g => g.conn.sends → g.conn.Waiting → g.conn.Armed) ?_ ?_
    · rintro g ⟨cfg, now, rfl⟩ hs
      exact absurd hs (not_sends .closed (by decide) rfl)
    · intro g e g' hg ih hP hn hs hw
      exact armed_step ih hP (sender_step (send_inv hg).1 hn hs) hw
  exact hinv hs hw

end Host

def byteWaits : List Event := opening ++ [.write 0 [1], .write 0 [2], .rto 1]

theorem timer_armed_while_waiting_byteWaits :
    ((Host.fresh {} 0 : Host SmallController).run byteWaits).conn.sendBuf.pending > 0 ∧
      (((Host.fresh {} 0 : Host SmallController).run byteWaits).conn.rtoTimer.isSome = true ∨
        ((Host.fresh {} 0 : Host SmallController).run byteWaits).conn.persistTimer.isSome = true) := by
  have hr : (Host.system SmallController).Reach Host.KeepsTimer ((Host.fresh {} 0).run byteWaits) :=
    Host.run_reach (by decide +kernel) (by decide +kernel)
  have hp : ((Host.fresh {} 0 : Host SmallController).run byteWaits).conn.sendBuf.pending > 0 := by decide +kernel
  exact ⟨hp, Host.timer_armed_while_waiting hr (by decide +kernel) (.inr hp)⟩

def keepaliveTick : List Event :=
  [.connect 0 100,
    .segment 0 { srcPort := 0, dstPort := 0, seq := 700, ack := 101, flags := flagSYN ||| flagACK, window := 0 },
    .write 0 [1], .keepalive 1]

/-- The tick of the keepalive timer stops the persist timer: a byte is queued, and nothing will ever send it. -/
theorem keepalive_stops_persist :
    ∃ h : Host SmallController, (Host.system SmallController).Reach anyStep h ∧ h.conn.state = .established ∧
      h.conn.sendBuf.pending > 0 ∧ h.conn.rtoTimer = none ∧ h.conn.persistTimer = none := by
  refine ⟨(Host.fresh { keepalive := true } 0).run keepaliveTick, ?_, ?_, ?_, ?_, ?_⟩
  · exact Host.run_reach (by decide +kernel) (execMeets_anyStep _ _ _)
  · decide +kernel
  · decide +kernel
  · decide +kernel
  · decide +kernel

end Libp2px.Vtcp
