import Libp2px.Vtcp.SenderStep

/-!
# Blocked `Write` calls

A `Write` that does not fit in the send buffer waits on `sendCond` without a flush.  Whatever ends the connection wakes
it, and so does an acknowledgment of new data; until then something is outstanding or a timer is armed, provided this
was so when the call began to wait.
-/

namespace Libp2px.Vtcp

open Transition CongestionController

set_option linter.unusedSectionVars false

variable {σ : Type} [CongestionController σ]

namespace Conn

/-! ### Who is woken -/

/-- `d` is ended if `c` is, and has made at least the broadcasts of `c`. -/
structure Still (c d : Conn σ) : Prop where
  closed : d.closed = c.closed
  sendCond : c.sendCond ≤ d.sendCond

/-- A connection is not ended, or the waiting `Write` calls are woken, or an attempt to connect ends. -/
inductive Wakes (c d : Conn σ) : Prop
  | still (h : Still c d)
  | ended (hc : d.closed = true) (hw : c.sendCond < d.sendCond)
  | refused (hs : c.state = .synSent) (hc : d.closed = true) (hw : c.sendCond ≤ d.sendCond)

section

omit [CongestionController σ]

variable {c d e : Conn σ}

theorem Still.refl (c : Conn σ) : Still c c := ⟨rfl, le_rfl⟩

theorem Still.trans (h₁ : Still c d) (h₂ : Still d e) : Still c e :=
  ⟨h₂.closed.trans h₁.closed, le_trans h₁.sendCond h₂.sendCond⟩

theorem Still.after (h : Still d e) (hc : d.closed = c.closed) (hw : d.sendCond = c.sendCond) : Still c e :=
  ⟨h.closed.trans hc, hw ▸ h.sendCond⟩

theorem wakes_shut (hc : d.closed = true) (hw : d.sendCond = c.sendCond + 1) : Wakes c d :=
  .ended hc (by rw [hw]; exact Nat.lt_succ_self _)

theorem still_safeCloseFinRecvd (c : Conn σ) : Still c c.safeCloseFinRecvd := by
  rw [safeCloseFinRecvd_frame]
  exact ⟨rfl, le_rfl⟩

theorem still_dataAndFIN (seg : Segment) (c : Conn σ) : Still c (dataAndFIN seg c) := by
  rw [(taken_dataAndFIN seg c).frame]
  exact ⟨rfl, le_rfl⟩

theorem still_completePassiveOpen (seg : Segment) (c : Conn σ) : Still c (completePassiveOpen seg c) := by
  rw [completePassiveOpen_eq]
  exact ⟨rfl, le_rfl⟩

end

theorem still_negotiate (opts : List TcpOption) (c : Conn σ) :
    Still c (negotiateOptions opts (narrowMSS opts c)) :=
  ⟨congrArg Core.closed (coreWith_negotiate { conn := c } c opts), (sendCond_negotiate opts c).ge⟩

variable (now : Int)

theorem still_flushSendQueue (c : Conn σ) : Still c (flushSendQueue now c) :=
  ⟨closed_flushSendQueue c now, (sendCond_flushSendQueue now c).ge⟩

theorem still_processSegACK (seg : Segment) (c : Conn σ) : Still c (processSegACK now seg c) := by
  refine ⟨?_, sendCond_processSegACK now seg c⟩
  rw [processSegACK_frame]

theorem still_handleDataState (seg : Segment) (c : Conn σ) : Still c (handleDataState now seg c) := by
  cases hpaws : c.pawsOK seg.options with
  | false =>
    rw [handleDataState_of_paws now hpaws]
    exact ⟨rfl, le_rfl⟩
  | true =>
    obtain ⟨ts, hts⟩ := recordTimestamp_eq seg.options c
    rw [handleDataState_eq now hpaws, hts]
    have hack : Still c (processSegACK now seg { c with tsRecent := ts }) :=
      (still_processSegACK now seg { c with tsRecent := ts }).after rfl rfl
    have hrest := hack.trans (still_dataAndFIN seg _)
    split
    · exact ⟨hrest.closed, hrest.sendCond⟩
    · exact hrest

theorem still_completeActiveOpen (seg : Segment) (c : Conn σ) :
    Still c (completeActiveOpen now seg c) := by
  obtain ⟨rc, hopen⟩ := completeActiveOpen_frame now seg c
  have hack : Still c (queueACK now (c.synAcked now seg rc)) := ⟨rfl, le_rfl⟩
  have hflush := hack.trans (still_flushSendQueue now _)
  rw [hopen]
  exact ⟨hflush.closed, hflush.sendCond⟩

variable {c : Conn σ} {seg : Segment}

theorem Handled.wakes {now : Int} {d : Conn σ} (h : Handled now seg c d) : Wakes c d := by
  have hn := still_negotiate seg.options c
  cases h with
  | ignored | answered | refused | closing | timeWait => exact .still ⟨rfl, le_rfl⟩
  | lastAck => exact wakes_shut rfl rfl
  | reset =>
    rw [resetTeardown_frame]
    exact .ended rfl (Nat.lt_succ_self _)
  | refusedOpen ht hst =>
    have hr := still_safeCloseFinRecvd c.shut.stopRTO.safeCloseEstablished
    exact .refused hst (hr.closed.trans rfl) hr.sendCond
  | synAck => exact .still (hn.trans (still_completeActiveOpen now seg _))
  | syn =>
    generalize negotiateOptions seg.options (narrowMSS seg.options c) = d at hn
    exact .still (hn.trans ⟨rfl, le_rfl⟩)
  | passive => exact .still ((still_completePassiveOpen seg c).trans (still_handleDataState now seg _))
  | data => exact .still (still_handleDataState now seg c)
  | closeWait => exact .still (still_processSegACK now seg c)

theorem wakes_handleSegment (seg : Segment) (c : Conn σ) : Wakes c (handleSegment now seg c) := by
  cases (handled now seg c).wakes with
  | still h => exact .still (h.after rfl rfl)
  | ended hc hw => exact .ended hc hw
  | refused hs hc hw => exact .refused hs hc hw

/-! ### New acknowledgments -/

theorem handleSegment_broadcasts (hs : c.sends)
    (ht : c.takesACK seg = true) (hlo : seqAfter seg.ack c.sendBuf.una = true)
    (hhi : seqAfter seg.ack c.sendBuf.nxt = false) : c.sendCond < (handleSegment now seg c).sendCond := by
  have hack := (Passes.of_takesACK ht).ack
  have hacks : Core.acksData c.state = true := by
    rcases hs with hs | hs <;> rw [hs] <;> rfl
  obtain ⟨ts, d, htaken, heq⟩ := handleSegment_taken now hacks ht
  have hd : d.sendCond = c.sendCond + 1 := by
    rw [htaken.frame, processSegACK_of_ack now hack,
      processACK_new (c := { c.touch now with tsRecent := ts }) now _ hlo hhi, processNewACK_frame]
    rfl
  have hlt : c.sendCond < d.sendCond := by omega
  rcases heq with heq | heq <;> rw [heq] <;> exact hlt

/-! ### The other calls -/

theorem wakes_connect (iss : BitVec 32) (c : Conn σ) : Wakes c (c.connect now iss) := by
  unfold connect
  split
  · exact .still (Still.refl _)
  · exact .still ⟨rfl, le_rfl⟩

theorem wakes_acceptSYN (iss : BitVec 32) (syn : Segment) (c : Conn σ) :
    Wakes c (c.acceptSYN now iss syn) := by
  unfold acceptSYN
  split
  · exact .still (Still.refl _)
  · have hneg := still_negotiate syn.options c
    generalize negotiateOptions syn.options (narrowMSS syn.options c) = d at hneg
    exact .still (hneg.trans ⟨rfl, le_rfl⟩)

theorem wakes_acceptCookie (remoteSeq ourISS : BitVec 32) (mss : BitVec 16) (data : List Byte) (c : Conn σ) :
    Wakes c (c.acceptCookie remoteSeq ourISS mss data) := by
  by_cases hst : c.state = .closed ∨ c.state = .listen
  · obtain ⟨m, kt, pt, pb, hcookie⟩ := acceptCookie_frame remoteSeq ourISS mss data hst
    rw [hcookie]
    exact .still ⟨rfl, le_rfl⟩
  · have hsame : c.acceptCookie remoteSeq ourISS mss data = c := if_pos (not_or.1 hst)
    rw [hsame]
    exact .still (Still.refl _)

theorem wakes_onRTOTimeout (c : Conn σ) : Wakes c (c.onRTOTimeout now) := by
  rcases onRTOTimeout_cases now c with ⟨-, heq⟩ | ⟨-, ⟨-, -, heq⟩ | ⟨-, heq⟩⟩ <;> rw [heq]
  · exact .still (Still.refl _)
  · exact wakes_shut rfl rfl
  · rw [resend_frame]
    exact .still ⟨rfl, le_rfl⟩

theorem wakes_onPersistTimeout (c : Conn σ) : Wakes c (c.onPersistTimeout now) := by
  unfold onPersistTimeout
  split
  · exact .still (Still.refl _)
  · split
    · exact .still ((still_flushSendQueue now _).after rfl rfl)
    · unfold windowProbe
      split <;> exact .still ⟨rfl, le_rfl⟩

theorem wakes_onKeepalive (c : Conn σ) : Wakes c (c.onKeepalive now) := by
  rcases onKeepalive_cases now c with hsame | ⟨-, -, ⟨-, habort⟩ | ⟨-, d, ks, kt, hd, hrearm⟩⟩
  · rw [hsame]
    exact .still (Still.refl _)
  · rw [habort, keepaliveAbort_frame]
    exact .ended rfl (Nat.lt_succ_self _)
  · rw [hrearm]
    rcases hd with rfl | rfl
    · exact .still ⟨rfl, le_rfl⟩
    · exact .still ⟨rfl, le_rfl⟩

theorem still_writeLoop (rest : List Byte) (written : Nat) (c : Conn σ) :
    Still c (c.writeLoop now rest written).1 := by
  unfold writeLoop
  simp only
  split
  · exact (still_flushSendQueue now _).after rfl rfl
  · split
    · split <;> exact ⟨rfl, le_rfl⟩
    · exact ⟨rfl, le_rfl⟩

theorem wakes_write (b : List Byte) (c : Conn σ) : Wakes c (c.write now b).1 := by
  unfold write
  split
  · exact .still (Still.refl _)
  · split
    · exact .still (Still.refl _)
    · exact .still (still_writeLoop now b 0 c)

theorem wakes_writeResume (rest : List Byte) (written : Nat) (c : Conn σ) :
    Wakes c (c.writeResume now rest written).1 := by
  unfold writeResume
  split
  · exact .still (Still.refl _)
  · exact .still (still_writeLoop now rest written c)

theorem wakes_read (n : Nat) (c : Conn σ) : Wakes c (c.read now n).1 := by
  rw [read_frame]
  exact .still ⟨rfl, le_rfl⟩

theorem wakes_close (c : Conn σ) : Wakes c (c.close now) := by
  unfold close
  split
  · exact .still (Still.refl _)
  · split
    · have hf := still_flushSendQueue now c
      generalize flushSendQueue now c = f at hf
      exact .still ⟨hf.closed, le_trans hf.sendCond (Nat.le_succ _)⟩
    · exact .still ⟨rfl, Nat.le_succ _⟩
    · exact wakes_shut rfl rfl
    · exact .still ⟨rfl, Nat.le_succ _⟩
    · exact .still (Still.refl _)
    · exact .still (Still.refl _)
    · exact wakes_shut rfl rfl

theorem wakes_abort (c : Conn σ) : Wakes c c.abort := by
  unfold abort
  split
  · exact .still (Still.refl _)
  · simp only
    have key : ∀ d : Conn σ, d.closed = true → d.sendCond = c.sendCond →
        Wakes c d.broadcastRecv.broadcastSend.safeCloseEstablished.safeCloseFinRecvd := by
      intro d hc hw
      have hr := still_safeCloseFinRecvd d.broadcastRecv.broadcastSend.safeCloseEstablished
      refine .ended (hr.closed.trans hc) (lt_of_lt_of_le ?_ hr.sendCond)
      show c.sendCond < d.sendCond + 1
      omega
    apply key
    · split <;> rfl
    · split <;> rfl

end Conn

namespace Host

open Conn

theorem wakes_next {h h' : Host σ} {e : Event} (hn : h.next e = some h') : Wakes h.conn h'.conn := by
  obtain ⟨c, hcall, hleft⟩ := called_of_next hn
  suffices hc : Wakes h.conn c by
    rw [hleft.conn]
    cases hc with
    | still h => exact .still ⟨h.closed, h.sendCond⟩
    | ended hc hw => exact .ended hc hw
    | refused hs hc hw => exact .refused hs hc hw
  cases hcall with
  | connect now iss => exact wakes_connect now iss _
  | acceptSYN now iss syn => exact wakes_acceptSYN now iss syn _
  | acceptCookie remoteSeq ourISS mss data => exact wakes_acceptCookie remoteSeq ourISS mss data _
  | setupForHandshake | setDeadline | setReadDeadline => exact .still ⟨rfl, le_rfl⟩
  | segment now seg => exact wakes_handleSegment now seg _
  | rto now => exact wakes_onRTOTimeout now _
  | persist now => exact wakes_onPersistTimeout now _
  | keepalive now => exact wakes_onKeepalive now _
  | timeWait => exact wakes_shut rfl rfl
  | write now b => exact wakes_write now b _
  | resume now hw => exact wakes_writeResume now _ _ _
  | read now n => exact wakes_read now n _
  | close now => exact wakes_close now _
  | abort => exact wakes_abort _
  | setWriteDeadline | broadcastSend => exact .still ⟨rfl, Nat.le_succ _⟩

end Host

/-! ### What a blocked `Write` waits for -/

def Conn.Alive (c : Conn σ) : Prop := c.sendBuf.una ≠ c.sendBuf.nxt ∨ c.Armed

instance (c : Conn σ) : Decidable c.Alive := by
  unfold Conn.Alive
  infer_instance

def Conn.deadlinePassed (now : Int) (c : Conn σ) : Bool :=
  match c.writeDeadline with
  | some dl => decide (now > dl)
  | none => false

namespace Host

open Conn

def blocksWrite (h : Host σ) (e : Event) : Bool :=
  !h.conn.closed && decide h.conn.sends &&
    match e with
    | .write now b => !h.conn.fits b && !h.conn.deadlinePassed now
    | .resume now i => (h.writers[i]?).any fun w => !h.conn.fits w.rest && !h.conn.deadlinePassed now
    | _ => false

def someBlocked (h : Host σ) : Bool := h.writers.any fun w => !h.woken w

/-- A `Write` begins to wait only when something is in flight or a timer is armed, and while it waits with nothing in
flight no timer takes the last one away. -/
def BlocksInFlight (h : Host σ) (e : Event) : Prop :=
  (h.blocksWrite e = true → h.conn.Alive) ∧
    (h.someBlocked = true → h.conn.sendBuf.una = h.conn.sendBuf.nxt → h.conn.closed = false → h.conn.sends →
      match e with
      | .keepalive now => h.conn.keepaliveExpired now = false → h.conn.rtoTimer.isSome = true
      | .persist _ => 0 < h.conn.sndWnd → h.conn.rtoTimer.isSome = true ∨ h.conn.CanSend
      | _ => True)

instance (h : Host σ) (e : Event) : Decidable (h.BlocksInFlight e) :=
  match e with
  | .keepalive _ => inferInstanceAs (Decidable ((_ → _) ∧ (_ → _ → _ → _ → _ → _)))
  | .persist _ => inferInstanceAs (Decidable ((_ → _) ∧ (_ → _ → _ → _ → _ → _ ∨ _)))
  | .connect _ _ | .acceptSYN _ _ _ | .acceptCookie _ _ _ _ | .setupForHandshake _ | .segment _ _ | .rto _
  | .timeWait | .write _ _ | .resume _ _ | .read _ _ | .close _ | .abort | .setDeadline _
  | .setReadDeadline _ | .setWriteDeadline _ | .broadcastSend =>
    inferInstanceAs (Decidable ((_ → _) ∧ (_ → _ → _ → _ → True)))

/-- The waiting `Write` calls: an ended connection has woken them all, and until then they wait for a broadcast while
something is in flight or a timer is armed. -/
structure WritersAlive (h : Host σ) : Prop where
  ticket : ∀ w ∈ h.writers, w.ticket ≤ h.conn.sendCond
  ended : h.conn.closed = true → ∀ w ∈ h.writers, w.ticket < h.conn.sendCond
  alive : h.conn.closed = false → h.conn.sends → ∀ w ∈ h.writers, w.ticket = h.conn.sendCond → h.conn.Alive

theorem writeLoop_wait {c : Conn σ} {now : Int} {rest : List Byte} {written n : Nat}
    (hw : (c.writeLoop now rest written).2.2 = .wait n) :
    (c.writeLoop now rest written).1 = { c with sendBuf := (c.sendBuf.write rest).1 } ∧ c.fits rest = false ∧
      c.deadlinePassed now = false := by
  have hiff := write_length_iff c.sendBuf rest
  unfold writeLoop at hw ⊢
  simp only at hw ⊢
  split at hw
  · cases hw
  · rename_i hlen
    rw [if_neg hlen]
    have hfit : c.fits rest = false := decide_eq_false fun hle => hlen (hiff.2 hle)
    unfold deadlinePassed
    split at hw
    · rename_i dl hdl
      split at hw
      · cases hw
      · rename_i hnow
        have hdl' : c.writeDeadline = some dl := hdl
        simp only [hdl', hnow, if_false, decide_false]
        exact ⟨trivial, hfit, trivial⟩
    · rename_i hdl
      have hdl' : c.writeDeadline = none := hdl
      simp only [hdl']
      exact ⟨trivial, hfit, trivial⟩

theorem mem_writers_finishWrite {h : Host σ} {rest : List Byte} {r : Conn σ × Nat × WriteResult} {w : Writer}
    (hw : w ∈ (h.finishWrite rest r).writers) :
    w ∈ h.writers ∨ (∃ n, r.2.2 = .wait n) ∧ w.ticket = r.1.sendCond ∧
      (h.finishWrite rest r).conn = { r.1 with outgoing := [] } := by
  unfold finishWrite at hw ⊢
  simp only at hw ⊢
  split at hw
  · rename_i n hr
    rcases List.mem_append.1 hw with hw | hw
    · exact .inl hw
    · right
      rw [List.mem_singleton] at hw
      simp only [hr]
      exact ⟨⟨n, rfl⟩, by rw [hw], rfl⟩
  · exact .inl hw

theorem mem_writers_next {h h' : Host σ} {e : Event} (hn : h.next e = some h') {w : Writer} (hw : w ∈ h'.writers) :
    w ∈ h.writers ∨ h.conn.closed = false ∧ (h.conn.sends → h.blocksWrite e = true) ∧
      w.ticket = h'.conn.sendCond ∧ h'.conn.closed = h.conn.closed ∧ h'.conn.state = h.conn.state ∧
      (h.conn.Alive → h'.conn.Alive) := by
  have happ := (apply_of_next hn).1
  have hwait : ∀ {rest : List Byte} {now : Int} {written : Nat},
      (∃ n, (h.conn.writeLoop now rest written).2.2 = .wait n) →
      w.ticket = (h.conn.writeLoop now rest written).1.sendCond →
      h'.conn = { (h.conn.writeLoop now rest written).1 with outgoing := [] } →
      h.conn.fits rest = false ∧ h.conn.deadlinePassed now = false ∧ w.ticket = h'.conn.sendCond ∧
        h'.conn.closed = h.conn.closed ∧ h'.conn.state = h.conn.state ∧ (h.conn.Alive → h'.conn.Alive) := by
    rintro rest now written ⟨n, hr⟩ ht heq
    obtain ⟨hconn, hfit, hdl⟩ := writeLoop_wait hr
    rw [hconn, SendBuf.write_eq] at heq ht
    rw [heq]
    exact ⟨hfit, hdl, ht, rfl, rfl, fun ha => ha⟩
  obtain ⟨c, -, hleft⟩ := called_of_next hn
  rcases hleft.writers with hsame | ⟨now, b, rfl⟩ | ⟨now, i, rfl⟩
  · exact .inl (hsame ▸ hw)
  · rw [← Option.some.inj happ] at hw
    rcases mem_writers_finishWrite hw with hold | ⟨hr, ht, hconn⟩
    · exact .inl hold
    · right
      have heq : h'.conn = { (h.conn.write now b).1 with outgoing := [] } := by rw [← Option.some.inj happ]; exact hconn
      unfold Conn.write at hr ht heq
      split at hr
      · obtain ⟨n, hr⟩ := hr
        cases hr
      · rename_i hcl
        rw [if_neg hcl] at ht heq
        split at hr
        · obtain ⟨n, hr⟩ := hr
          cases hr
        · rename_i hst
          rw [if_neg hst] at ht heq
          obtain ⟨hfit, hdl, hrest⟩ := hwait hr ht heq
          have hcl' : h.conn.closed = false := by simpa using hcl
          refine ⟨hcl', fun hs => ?_, hrest⟩
          simp [blocksWrite, hcl', hs, hfit, hdl]
  · simp only [apply] at happ
    split at happ
    · cases happ
    · rename_i v hv
      split at happ
      · rw [← Option.some.inj happ] at hw
        rcases mem_writers_finishWrite hw with hold | ⟨hr, ht, hconn⟩
        · exact .inl (List.mem_of_mem_eraseIdx hold)
        · right
          have heq : h'.conn = { (h.conn.writeResume now v.rest v.written).1 with outgoing := [] } := by
            rw [← Option.some.inj happ]
            exact hconn
          unfold Conn.writeResume at hr ht heq
          split at hr
          · obtain ⟨n, hr⟩ := hr
            cases hr
          · rename_i hcl
            rw [if_neg hcl] at ht heq
            obtain ⟨hfit, hdl, hrest⟩ := hwait hr ht heq
            have hcl' : h.conn.closed = false := by simpa using hcl
            refine ⟨hcl', fun hs => ?_, hrest⟩
            simp [blocksWrite, hcl', hs, hv, hfit, hdl]
      · cases happ

theorem alive_step {h : Host σ} {e : Event} {d : Conn σ} (hP : h.BlocksInFlight e) (ha : h.conn.Alive)
    (hb : h.someBlocked = true) (hlate : Core.early h.conn.state = false) (hc : d.sendCond = h.conn.sendCond)
    (hstep : SenderStep e h d) : d.Alive := by
  have hsame : ∀ {c : Conn σ}, c.Alive → SameSender c d → d.Alive := by
    intro c hc hd
    unfold Alive
    rw [hd.una, hd.nxt, hd.armed]
    exact hc
  have hflush : ∀ {c : Conn σ} (now : Int), c.Alive → (flushSendQueue now c).Alive := by
    intro c now hc
    rcases hc with hu | harm
    · left
      rw [una_ne_nxt_iff] at hu ⊢
      exact lt_of_lt_of_le hu (unacked_le_flushSendQueue now c)
    · exact .inr (harm.flushSendQueue now)
  have hwrite : ∀ rest, ({ h.conn with sendBuf := (h.conn.sendBuf.write rest).1 } : Conn σ).Alive := by
    intro rest
    rw [SendBuf.write_eq]
    exact ha
  cases hstep with
  | frame hs hd => exact hsame ha hd
  | opened he hd hc => cases hlate.symm.trans he
  | resent hs hd harm => exact .inr harm
  | acked he hs ht hd =>
    cases hd with
    | same hd => exact hsame ha hd
    | resent hd harm => exact .inr harm
    | acked hlo hhi hcov hlt => omega
  | probed he hs hbuf hcap harm hle => exact .inr harm
  | @flushed now he hs hcl hwnd hd =>
    subst he
    refine hsame ?_ hd
    by_cases hu : h.conn.sendBuf.una = h.conn.sendBuf.nxt
    · rcases hP.2 hb hu hcl hs hwnd with hrto | hcan
      · exact hflush now (.inr (.inl hrto))
      · exact .inr (armed_flushSendQueue_of_canSend (c := h.conn.stopPersist) now hcan).1
    · exact hflush (c := h.conn.stopPersist) now (.inl hu)
  | kept he hs hcl hk hd hr =>
    subst he
    by_cases hu : h.conn.sendBuf.una = h.conn.sendBuf.nxt
    · right
      left
      rw [hr]
      exact hP.2 hb hu hcl hs hk
    · left
      rw [hd.una, hd.nxt]
      exact hu
  | filled he hs hcl hfit hd => exact hsame (hwrite _) hd
  | wrote he hs hcl hfit hd => exact hsame (hflush _ (hwrite _)) hd

theorem WritersAlive.step {h h' : Host σ} {e : Event} (hinv : h.WritersAlive) (hsend : h.core.SendInv)
    (hest : h.writers ≠ [] → State.established ∈ h.conn.entered) (hP : h.BlocksInFlight e)
    (hn : h.next e = some h') : h'.WritersAlive := by
  have hwakes := wakes_next hn
  have hmono : h.conn.sendCond ≤ h'.conn.sendCond := by
    cases hwakes with
    | still hs => exact hs.sendCond
    | ended hc hw => exact le_of_lt hw
    | refused hs hc hw => exact hw
  -- before ESTABLISHED nothing waits
  have hearly : h.conn.closed = false → Core.early h.conn.state = true → h.writers = [] := by
    intro hc he
    by_contra hne
    exact (hsend.fresh hc he).1 (hest hne)
  refine ⟨?_, ?_, ?_⟩
  · intro w hw
    rcases mem_writers_next hn hw with hold | ⟨-, -, ht, -⟩
    · exact le_trans (hinv.ticket w hold) hmono
    · exact ht.le
  · intro hc w hw
    rcases mem_writers_next hn hw with hold | ⟨hcf, -, -, hsame, -⟩
    · cases hwakes with
      | still hs =>
        have hlt := hinv.ended (hs.closed.symm.trans hc) w hold
        omega
      | ended _ hlt =>
        have := hinv.ticket w hold
        omega
      | refused hs _ _ =>
        by_cases hcf : h.conn.closed = false
        · rw [hearly hcf (by rw [hs]; rfl)] at hold
          cases hold
        · have := hinv.ended (by simpa using hcf) w hold
          omega
    · cases (hsame.trans hcf).symm.trans hc
  · intro hc hs w hw ht
    have hcf : h.conn.closed = false := by
      cases hwakes with
      | still hst => exact hst.closed.symm.trans hc
      | ended hct _ => cases hc.symm.trans hct
      | refused _ hct _ => cases hc.symm.trans hct
    rcases mem_writers_next hn hw with hold | ⟨-, hblock, -, -, hstate, halive⟩
    · have hle := hinv.ticket w hold
      have hcond : h'.conn.sendCond = h.conn.sendCond := by omega
      have hlate : Core.early h.conn.state = false := by
        by_contra he
        rw [hearly hcf (by simpa using he)] at hold
        cases hold
      have hstep := sender_step hsend hn hs
      have hsends : h.conn.sends := by
        cases hstep with
        | opened he => cases hlate.symm.trans he
        | frame hs | resent hs | acked _ hs | probed _ hs | flushed _ hs | kept _ hs | filled _ hs | wrote _ hs => exact hs
      have hblocked : h.someBlocked = true := by
        refine List.any_eq_true.2 ⟨w, hold, ?_⟩
        unfold woken
        rw [decide_eq_false (by omega)]
        rfl
      exact alive_step hP (hinv.alive hcf hsends w hold (by omega)) hblocked hlate hcond hstep
    · have hsends : h.conn.sends := by
        unfold sends at hs ⊢
        rwa [hstate] at hs
      exact halive (hP.1 (hblock hsends))

/-- In a run whose steps keep to `BlocksInFlight`, a `Write` that waits in ESTABLISHED or CLOSE-WAIT has something in
flight or a timer armed, and an acknowledgment of new data wakes it. -/
theorem blocked_write_alive {h : Host σ} (hr : (system σ).Reach BlocksInFlight h)
    (hs : h.conn.state = .established ∨ h.conn.state = .closeWait) :
    (∀ w ∈ h.writers, h.woken w = false → h.conn.sendBuf.una ≠ h.conn.sendBuf.nxt ∨
        h.conn.rtoTimer.isSome = true ∨ h.conn.persistTimer.isSome = true) ∧
      ∀ now seg h', h.conn.takesACK seg = true → seqAfter seg.ack h.conn.sendBuf.una = true →
        seqAfter seg.ack h.conn.sendBuf.nxt = false → h.next (.segment now seg) = some h' →
          ∀ w ∈ h'.writers, h'.woken w = true := by
  have hinv : h.WritersAlive := by
    refine hr.invariant (I := WritersAlive) ?_ ?_
    · rintro g ⟨cfg, now, rfl⟩
      refine ⟨?_, ?_, ?_⟩
      · intro w hw
        cases hw
      · intro _ w hw
        cases hw
      · intro _ _ w hw
        cases hw
    · intro g e g' hg ih hP hn
      exact ih.step (send_inv hg).1 (send_inv hg).2 hP hn
  refine ⟨?_, ?_⟩
  · intro w hw hb
    have hle := hinv.ticket w hw
    have hge : ¬w.ticket < h.conn.sendCond := of_decide_eq_false hb
    by_cases hc : h.conn.closed = false
    · exact hinv.alive hc hs w hw (by omega)
    · exact absurd (hinv.ended (by simpa using hc) w hw) hge
  · intro now seg h' ht hlo hhi hn w hw
    have happ := Option.some.inj (apply_of_next hn).1
    have hlt : h.conn.sendCond < h'.conn.sendCond := by
      rw [← happ]
      exact handleSegment_broadcasts now hs ht hlo hhi
    have hold : w ∈ h.writers := by
      rw [← happ] at hw
      exact hw
    have hle := hinv.ticket w hold
    exact decide_eq_true (by omega)

end Host

/-- A byte is written and sent, and a `Write` of two bytes finds room for one. -/
def oneOfTwoFits : List Event := opening ++ [.write 0 [1], .write 0 [2, 3]]

theorem blocked_write_alive_oneOfTwoFits :
    ((Host.fresh { sendBufSize := 2 } 0 : Host SmallController).run oneOfTwoFits).someBlocked = true ∧
      ∀ w ∈ ((Host.fresh { sendBufSize := 2 } 0 : Host SmallController).run oneOfTwoFits).writers,
        ((Host.fresh { sendBufSize := 2 } 0 : Host SmallController).run oneOfTwoFits).woken w = false →
          ((Host.fresh { sendBufSize := 2 } 0 : Host SmallController).run oneOfTwoFits).conn.Alive := by
  have hr : (Host.system SmallController).Reach Host.BlocksInFlight
      ((Host.fresh { sendBufSize := 2 } 0).run oneOfTwoFits) :=
    Host.run_reach (by decide +kernel) (by decide +kernel)
  exact ⟨by decide +kernel, (Host.blocked_write_alive hr (by decide +kernel)).1⟩

def writeTwoIntoOne : List Event := opening ++ [.write 0 [1, 2]]

/-- The `Write` fills the buffer and waits for space, and nothing has been sent: `writeLoop` flushes only after the last
byte has found room. -/
theorem write_blocks_idle :
    ∃ h : Host SmallController, (Host.system SmallController).Reach anyStep h ∧ h.conn.state = .established ∧
      h.someBlocked = true ∧ h.conn.sendBuf.una = h.conn.sendBuf.nxt ∧ h.conn.rtoTimer = none ∧
      h.conn.persistTimer = none := by
  refine ⟨(Host.fresh { sendBufSize := 1 } 0).run writeTwoIntoOne, ?_, ?_, ?_, ?_, ?_, ?_⟩
  · exact Host.run_reach (by decide +kernel) (execMeets_anyStep _ _ _)
  · decide +kernel
  · decide +kernel
  · decide +kernel
  · decide +kernel
  · decide +kernel

end Libp2px.Vtcp
