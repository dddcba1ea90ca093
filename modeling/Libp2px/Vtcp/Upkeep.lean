import Libp2px.Vtcp.Placement

/-!
# The controller and the timestamps

Which calls a connection makes to its congestion controller, and which timestamps it records.  An acknowledgment that is
processed makes the calls `ackCalls`, a firing of the RTO timer that sends something again calls `OnTimeout`, and the
SYN-ACK of an active open brings a new controller; nothing else reaches the controller.  A timestamp is recorded only
from a segment that has just arrived (`Host.next_upkeep`).
-/

namespace Libp2px.Vtcp

open Transition

inductive Call
  | onACK (bytesAcked : BitVec 32)
  | onDupACK
  | onFastRetransmit (flightSize sndNxt : BitVec 32)
  | exitRecovery
  | onTimeout
  deriving DecidableEq, Repr

set_option linter.unusedSectionVars false

variable {σ : Type} [CongestionController σ]

open CongestionController

def Call.apply (cc : σ) : Call → σ
  | .onACK n => CongestionController.onACK cc n
  | .onDupACK => (CongestionController.onDupACK cc).1
  | .onFastRetransmit flight nxt => CongestionController.onFastRetransmit cc flight nxt
  | .exitRecovery => CongestionController.exitRecovery cc
  | .onTimeout => CongestionController.onTimeout cc

namespace Conn

def ackCalls (ack : BitVec 32) (c : Conn σ) : List Call :=
  if !seqAfter ack c.sendBuf.una then
    .onDupACK ::
      if (onDupACK c.cc).2 then [.onFastRetransmit (BitVec.ofNat 32 c.sendBuf.unacked) c.sendBuf.nxt] else []
  else if seqAfter ack c.sendBuf.nxt then []
  else
    let acked := (c.sendBuf.acknowledge ack).2
    .onACK acked ::
      if inRecovery (onACK c.cc acked) && seqAfterEq ack (recoverySeq (onACK c.cc acked)) then [.exitRecovery] else []

/-- The calls that a segment leads to. In SYN-RECEIVED the acknowledgment of our SYN is taken before the segment is
processed as in ESTABLISHED. -/
def segCalls (seg : Segment) (c : Conn σ) : List Call :=
  if c.takesACK seg then
    if c.state = .synReceived then ackCalls seg.ack { c with sendBuf := (c.sendBuf.acknowledge seg.ack).1 }
    else c.ackCalls seg.ack
  else []

def calls (c : Conn σ) : Event → List Call
  | .segment _ seg => c.segCalls seg
  | .rto _ => if c.resends then [.onTimeout] else []
  | _ => []

def takesSYN (seg : Segment) (c : Conn σ) : Bool :=
  decide (c.state = .synSent) && seg.hasFlag flagSYN && !seg.hasFlag flagRST &&
    !(seg.hasFlag flagACK && (seqBeforeEq seg.ack c.sendBuf.una || seqAfter seg.ack c.sendBuf.nxt))

/-- The controller after the handshake part of a segment: the SYN-ACK of an active open brings a new one. -/
def segController (seg : Segment) (c : Conn σ) : σ :=
  if c.takesSYN seg && seg.hasFlag flagACK then
    CongestionController.new c.ccName (BitVec.ofNat 32 (negotiateOptions seg.options (narrowMSS seg.options c)).mss)
  else c.cc

def controllerFor (c : Conn σ) : Event → σ
  | .segment _ seg => c.segController seg
  | _ => c.cc

/-- The timestamps of `d` are those of `c`, or they were taken from the options. -/
def Stamped (opts : List TcpOption) (c d : Conn σ) : Prop :=
  d.tsOK = c.tsOK ∧ d.tsRecent = c.tsRecent ∨ d.tsOK = true ∧ ∃ ecr, getTimestamp opts = some (d.tsRecent, ecr)

/-! ### The parts of the handlers -/

section

omit [CongestionController σ]

variable (opts : List TcpOption) (c : Conn σ)

theorem Stamped.refl : Stamped opts c c := .inl ⟨rfl, rfl⟩

theorem stamped_recordTimestamp : Stamped opts c (c.recordTimestamp opts) := by
  unfold recordTimestamp
  split
  · rename_i hok hts
    exact .inr ⟨hok, _, hts⟩
  · exact Stamped.refl opts c

theorem stamped_negotiate :
    Stamped opts c (negotiateOptions opts (narrowMSS opts c)) := by
  obtain ⟨ts, hts, h⟩ := negotiate_eq opts c
  rw [h]
  rcases hts with ⟨hts, hno⟩ | ⟨hen, ecr, hget⟩
  · refine .inl ⟨?_, hts⟩
    show (c.tsOK || (c.tsEnabled && (getTimestamp opts).isSome)) = c.tsOK
    rw [hno, Bool.or_false]
  · refine .inr ⟨?_, ecr, hget⟩
    show (c.tsOK || (c.tsEnabled && (getTimestamp opts).isSome)) = true
    rw [hen, hget, Option.isSome_some, Bool.and_self, Bool.or_true]

theorem Stamped.congr {opts : List TcpOption} {c d c' d' : Conn σ} (h : Stamped opts c d)
    (hc : c'.tsOK = c.tsOK ∧ c'.tsRecent = c.tsRecent) (hd : d'.tsOK = d.tsOK ∧ d'.tsRecent = d.tsRecent) :
    Stamped opts c' d' := by
  unfold Stamped
  rw [hc.1, hc.2, hd.1, hd.2]
  exact h

theorem cc_retransmit (now : Int) (c : Conn σ) : (retransmit now c).cc = c.cc := by
  rw [retransmit_frame]

theorem cc_updateSACK : (updateSACK opts c).cc = c.cc := by
  rw [updateSACK_frame]

theorem cc_dataAndFIN (seg : Segment) (c : Conn σ) : (dataAndFIN seg c).cc = c.cc := by
  rw [(taken_dataAndFIN seg c).frame]

end

variable (now : Int) (seg : Segment) (c : Conn σ)

theorem cc_processACK (ack : BitVec 32) (opts : List TcpOption) (c : Conn σ) :
    (processACK now ack opts c).cc = (c.ackCalls ack).foldl Call.apply c.cc := by
  unfold processACK ackCalls
  split
  · unfold processDupACK
    simp only
    rw [cc_updateSACK]
    split
    · rw [cc_retransmit]
      rfl
    · rfl
  · split
    · rfl
    · rw [processNewACK_frame]
      show ccAfterACK c.cc ack (c.sendBuf.acknowledge ack).2 = _
      unfold ccAfterACK
      simp only
      split <;> rfl

theorem cc_processSegACK {seg : Segment} (hack : seg.hasFlag flagACK = true) :
    (processSegACK now seg c).cc = (c.ackCalls seg.ack).foldl Call.apply c.cc := by
  unfold processSegACK
  rw [if_pos hack]
  exact cc_processACK now seg.ack seg.options c

theorem cc_handleDataState {seg : Segment} {c : Conn σ} (hack : seg.hasFlag flagACK = true) :
    (handleDataState now seg c).cc =
      if c.pawsOK seg.options then (c.ackCalls seg.ack).foldl Call.apply c.cc else c.cc := by
  cases hpaws : c.pawsOK seg.options with
  | false =>
    rw [handleDataState_of_paws now hpaws]
    rfl
  | true =>
    obtain ⟨ts, hts⟩ := recordTimestamp_eq seg.options c
    have hcc : (dataAndFIN seg (processSegACK now seg { c with tsRecent := ts })).cc =
        (c.ackCalls seg.ack).foldl Call.apply c.cc := by
      rw [cc_dataAndFIN, cc_processSegACK now _ hack]
      rfl
    rw [handleDataState_eq now hpaws, hts, if_pos rfl]
    split
    · exact hcc
    · exact hcc

theorem stamped_handleDataState :
    Stamped seg.options c (handleDataState now seg c) := by
  cases hpaws : c.pawsOK seg.options with
  | false =>
    rw [handleDataState_of_paws now hpaws]
    exact Stamped.refl _ c
  | true =>
    have hrec := stamped_recordTimestamp seg.options c
    have hkeep : ∀ d : Conn σ, (dataAndFIN seg (processSegACK now seg d)).tsOK = d.tsOK ∧
        (dataAndFIN seg (processSegACK now seg d)).tsRecent = d.tsRecent := by
      intro d
      rw [(taken_dataAndFIN seg (processSegACK now seg d)).frame, processSegACK_frame]
      exact ⟨rfl, rfl⟩
    rw [handleDataState_eq now hpaws]
    split
    · exact hrec.congr ⟨rfl, rfl⟩ (hkeep _)
    · exact hrec.congr ⟨rfl, rfl⟩ (hkeep _)

/-! ### The handlers -/

theorem segController_touch :
    (c.touch now).segController seg = c.segController seg := by
  obtain ⟨ts, -, h⟩ := negotiate_eq seg.options c
  obtain ⟨ts', -, h'⟩ := negotiate_eq seg.options (c.touch now)
  unfold segController
  rw [h, h']
  rfl

theorem Handled.upkeep {now : Int} {seg : Segment} {c d : Conn σ} (h : Handled now seg c d) :
    d.cc = (c.segCalls seg).foldl Call.apply (c.segController seg) ∧ Stamped seg.options c d := by
  have hneg := stamped_negotiate seg.options c
  obtain ⟨ts, -, heq⟩ := negotiate_eq seg.options c
  have htakes : c.state = .synSent → c.takesACK seg = false ∧ c.takesSYN seg = (seg.hasFlag flagSYN &&
      !seg.hasFlag flagRST && (!seg.hasFlag flagACK ||
        !seqBeforeEq seg.ack c.sendBuf.una && !seqAfter seg.ack c.sendBuf.nxt)) := by
    intro hst
    exact ⟨by simp [takesACK, hst], by simp [takesSYN, hst]⟩
  have hsame : c.state ≠ .synSent → c.segController seg = c.cc := by
    intro h
    unfold segController takesSYN
    simp only [decide_eq_false h, Bool.false_and, Bool.false_eq_true, if_false]
  have hkeep : c.Leaves seg → (c.segCalls seg).foldl Call.apply (c.segController seg) = c.cc := by
    intro ht
    by_cases hst : c.state = .synSent
    · unfold segCalls segController
      rw [ht.ack, (htakes hst).2, ht.syn hst]
      rfl
    · unfold segCalls
      rw [ht.ack, hsame hst]
      rfl
  have htake : c.state ≠ .synSent → c.state ≠ .synReceived → c.takesACK seg = true →
      (c.segCalls seg).foldl Call.apply (c.segController seg) = (c.ackCalls seg.ack).foldl Call.apply c.cc := by
    intro hs hr ht
    unfold segCalls
    rw [if_pos ht, if_neg hr, hsame hs]
  cases h with
  | ignored ht | answered ht | refused ht | closing ht | timeWait ht | lastAck ht =>
    exact ⟨(hkeep ht).symm, Stamped.refl _ c⟩
  | reset ht =>
    rw [hkeep ht, resetTeardown_frame]
    exact ⟨rfl, Stamped.refl _ c⟩
  | refusedOpen ht =>
    rw [hkeep ht, safeCloseFinRecvd_frame]
    exact ⟨rfl, Stamped.refl _ c⟩
  | synAck hst hsyn hrst hack hlo hhi =>
    obtain ⟨rc, hopen⟩ := completeActiveOpen_frame now seg (negotiateOptions seg.options (narrowMSS seg.options c))
    unfold segCalls segController
    rw [(htakes hst).1, (htakes hst).2, hopen, flushSendQueue_frame, hsyn, hrst, hack, hlo, hhi]
    refine ⟨?_, hneg.congr ⟨rfl, rfl⟩ ⟨rfl, rfl⟩⟩
    rw [heq]
    rfl
  | syn hst hsyn hrst hack =>
    unfold segCalls segController
    rw [(htakes hst).1, hack, Bool.and_false]
    refine ⟨?_, hneg.congr ⟨rfl, rfl⟩ ⟨rfl, rfl⟩⟩
    rw [heq]
    rfl
  | passive hst hp hack =>
    have hstamp := stamped_handleDataState now seg (completePassiveOpen seg c)
    have ht := hp.takesACK_eq
    rw [hst] at ht
    rw [cc_handleDataState now hp.ack, hsame (by rw [hst]; decide), segCalls, if_pos hst, ht, decide_eq_true hack,
      Bool.true_and]
    rw [completePassiveOpen_eq] at hstamp ⊢
    refine ⟨?_, hstamp.congr ⟨rfl, rfl⟩ ⟨rfl, rfl⟩⟩
    show (if c.pawsOK seg.options then _ else _) = _
    split <;> rfl
  | data hst hp ht hpaws =>
    rw [cc_handleDataState now hp.ack, if_pos hpaws,
      htake (by rcases hst with h | h | h <;> rw [h] <;> decide) (by rcases hst with h | h | h <;> rw [h] <;> decide) ht]
    exact ⟨rfl, stamped_handleDataState now seg c⟩
  | closeWait hst hp ht =>
    rw [cc_processSegACK now c hp.ack, htake (by rw [hst]; decide) (by rw [hst]; decide) ht, processSegACK_frame]
    exact ⟨rfl, Stamped.refl _ c⟩

theorem handleSegment_upkeep :
    (c.handleSegment now seg).cc = (c.segCalls seg).foldl Call.apply (c.segController seg) ∧
      Stamped seg.options c (c.handleSegment now seg) := by
  have h := (handled now seg c).upkeep
  rw [segController_touch] at h
  exact h

/-! ### Calls and callbacks -/

omit [CongestionController σ] in
structure SameUpkeep (c d : Conn σ) : Prop where
  cc : d.cc = c.cc
  tsOK : d.tsOK = c.tsOK
  tsRecent : d.tsRecent = c.tsRecent

theorem SameUpkeep.refl : SameUpkeep c c := ⟨rfl, rfl, rfl⟩

theorem sameUpkeep_flushSendQueue : SameUpkeep c (flushSendQueue now c) := by
  rw [flushSendQueue_frame]
  exact ⟨rfl, rfl, rfl⟩

theorem sameUpkeep_acceptCookie (remoteSeq ourISS : BitVec 32) (mss : BitVec 16) (data : List Byte) (c : Conn σ) :
    SameUpkeep c (acceptCookie remoteSeq ourISS mss data c) := by
  by_cases hst : c.state = .closed ∨ c.state = .listen
  · obtain ⟨m, kt, pt, pb, h⟩ := acceptCookie_frame remoteSeq ourISS mss data hst
    rw [h]
    exact ⟨rfl, rfl, rfl⟩
  · unfold acceptCookie
    rw [if_pos (by tauto)]
    exact .refl c

theorem sameUpkeep_onPersistTimeout : SameUpkeep c (onPersistTimeout now c) := by
  unfold onPersistTimeout
  split
  · exact .refl c
  · split
    · have h := sameUpkeep_flushSendQueue now c.stopPersist
      exact ⟨h.cc, h.tsOK, h.tsRecent⟩
    · unfold windowProbe
      split
      · exact ⟨rfl, rfl, rfl⟩
      · exact ⟨rfl, rfl, rfl⟩

theorem sameUpkeep_onKeepalive : SameUpkeep c (onKeepalive now c) := by
  rcases onKeepalive_cases now c with h | ⟨-, -, ⟨-, h⟩ | ⟨-, d, ks, kt, hd, h⟩⟩
  · rw [h]
    exact .refl c
  · rw [h, keepaliveAbort_frame]
    exact ⟨rfl, rfl, rfl⟩
  · rw [h]
    rcases hd with rfl | rfl
    · exact ⟨rfl, rfl, rfl⟩
    · exact ⟨rfl, rfl, rfl⟩

theorem sameUpkeep_writeLoop (rest : List Byte) (written : Nat) (c : Conn σ) :
    SameUpkeep c (c.writeLoop now rest written).1 := by
  unfold writeLoop
  simp only
  split
  · have h := sameUpkeep_flushSendQueue now { c with sendBuf := (c.sendBuf.write rest).1 }
    exact ⟨h.cc, h.tsOK, h.tsRecent⟩
  · split
    · split
      · exact ⟨rfl, rfl, rfl⟩
      · exact ⟨rfl, rfl, rfl⟩
    · exact ⟨rfl, rfl, rfl⟩

theorem sameUpkeep_write (b : List Byte) (c : Conn σ) : SameUpkeep c (c.write now b).1 := by
  unfold write
  split
  · exact .refl c
  · split
    · exact .refl c
    · exact sameUpkeep_writeLoop now b 0 c

theorem sameUpkeep_writeResume (rest : List Byte) (written : Nat) (c : Conn σ) :
    SameUpkeep c (c.writeResume now rest written).1 := by
  unfold writeResume
  split
  · exact .refl c
  · exact sameUpkeep_writeLoop now rest written c

theorem sameUpkeep_read (n : Nat) (c : Conn σ) : SameUpkeep c (c.read now n).1 := by
  rw [read_frame]
  exact ⟨rfl, rfl, rfl⟩

theorem sameUpkeep_close : SameUpkeep c (c.close now) := by
  unfold close
  split
  · exact .refl c
  · split
    · have h := sameUpkeep_flushSendQueue now c
      generalize flushSendQueue now c = d at h ⊢
      exact ⟨h.cc, h.tsOK, h.tsRecent⟩
    · exact ⟨rfl, rfl, rfl⟩
    · exact ⟨rfl, rfl, rfl⟩
    · exact ⟨rfl, rfl, rfl⟩
    · exact .refl c
    · exact .refl c
    · exact ⟨rfl, rfl, rfl⟩

theorem sameUpkeep_abort : SameUpkeep c c.abort := by
  have hclose : ∀ d : Conn σ, SameUpkeep c d →
      SameUpkeep c d.broadcastRecv.broadcastSend.safeCloseEstablished.safeCloseFinRecvd := by
    intro d hd
    rw [safeCloseFinRecvd_frame]
    exact ⟨hd.cc, hd.tsOK, hd.tsRecent⟩
  unfold abort
  split
  · exact .refl c
  · apply hclose
    split
    · exact ⟨rfl, rfl, rfl⟩
    · exact ⟨rfl, rfl, rfl⟩

theorem onRTOTimeout_upkeep :
    (onRTOTimeout now c).cc = (if c.resends then [Call.onTimeout] else []).foldl Call.apply c.cc ∧
      (onRTOTimeout now c).tsOK = c.tsOK ∧ (onRTOTimeout now c).tsRecent = c.tsRecent := by
  rcases onRTOTimeout_cases now c with ⟨hno, heq⟩ | ⟨-, ⟨-, hno, heq⟩ | ⟨hyes, heq⟩⟩
  · rw [heq, hno]
    exact ⟨rfl, rfl, rfl⟩
  · rw [heq, hno]
    exact ⟨rfl, rfl, rfl⟩
  · rw [heq, resend_frame, hyes]
    exact ⟨rfl, rfl, rfl⟩

theorem acceptSYN_upkeep (iss : BitVec 32) (syn : Segment) (c : Conn σ) :
    (acceptSYN now iss syn c).cc = c.cc ∧ Stamped syn.options c (acceptSYN now iss syn c) := by
  have hneg := stamped_negotiate syn.options c
  obtain ⟨ts, -, heq⟩ := negotiate_eq syn.options c
  have hcc : (negotiateOptions syn.options (narrowMSS syn.options c)).cc = c.cc := by rw [heq]
  unfold acceptSYN
  split
  · exact ⟨rfl, Stamped.refl _ c⟩
  · generalize negotiateOptions syn.options (narrowMSS syn.options c) = d at hneg hcc
    exact ⟨hcc, hneg.congr ⟨rfl, rfl⟩ ⟨rfl, rfl⟩⟩

end Conn

/-! ### Steps of a host -/

def Event.delivered : Event → List Segment
  | .segment _ seg => [seg]
  | .acceptSYN _ _ syn => [syn]
  | _ => []

namespace Host

open Conn

structure NextUpkeep (e : Event) (h h' : Host σ) : Prop where
  cc : h'.conn.cc = (h.conn.calls e).foldl Call.apply (h.conn.controllerFor e)
  received : h'.received = h.received ++ e.delivered
  stamp : h'.conn.tsOK = h.conn.tsOK ∧ h'.conn.tsRecent = h.conn.tsRecent ∨
    ∃ seg ∈ e.delivered, h'.conn.tsOK = true ∧ ∃ ecr, getTimestamp seg.options = some (h'.conn.tsRecent, ecr)

theorem next_upkeep {e : Event} {h h' : Host σ} (hn : h.next e = some h') : NextUpkeep e h h' := by
  obtain ⟨c, hcall, hleft⟩ := called_of_next hn
  suffices hc : c.cc = (h.conn.calls e).foldl Call.apply (h.conn.controllerFor e) ∧
      (c.tsOK = h.conn.tsOK ∧ c.tsRecent = h.conn.tsRecent ∨
        ∃ seg ∈ e.delivered, c.tsOK = true ∧ ∃ ecr, getTimestamp seg.options = some (c.tsRecent, ecr)) by
    refine ⟨?_, ?_, ?_⟩
    · rw [hleft.conn]
      exact hc.1
    · rw [hleft.received]
      cases e <;> first | rfl | exact (List.append_nil _).symm
    · rw [hleft.conn]
      exact hc.2
  have hsame : ∀ {d : Conn σ} {Q : Prop}, SameUpkeep h.conn d →
      d.cc = h.conn.cc ∧ (d.tsOK = h.conn.tsOK ∧ d.tsRecent = h.conn.tsRecent ∨ Q) :=
    fun hs => ⟨hs.cc, .inl ⟨hs.tsOK, hs.tsRecent⟩⟩
  cases hcall with
  | connect now iss =>
    refine hsame ?_
    unfold connect
    split
    · exact .refl _
    · exact ⟨rfl, rfl, rfl⟩
  | acceptSYN now iss syn =>
    obtain ⟨hcc, hst⟩ := acceptSYN_upkeep now iss syn h.conn
    exact ⟨hcc, hst.imp_right fun hnew => ⟨syn, List.mem_singleton_self syn, hnew⟩⟩
  | acceptCookie remoteSeq ourISS mss data => exact hsame (sameUpkeep_acceptCookie remoteSeq ourISS mss data h.conn)
  | segment now seg =>
    obtain ⟨hcc, hst⟩ := handleSegment_upkeep now seg h.conn
    exact ⟨hcc, hst.imp_right fun hnew => ⟨seg, List.mem_singleton_self seg, hnew⟩⟩
  | rto now =>
    obtain ⟨hcc, hts⟩ := onRTOTimeout_upkeep now h.conn
    exact ⟨hcc, .inl hts⟩
  | persist now => exact hsame (sameUpkeep_onPersistTimeout now h.conn)
  | keepalive now => exact hsame (sameUpkeep_onKeepalive now h.conn)
  | write now b => exact hsame (sameUpkeep_write now b h.conn)
  | resume now hw => exact hsame (sameUpkeep_writeResume now _ _ h.conn)
  | read now n => exact hsame (sameUpkeep_read now n h.conn)
  | close now => exact hsame (sameUpkeep_close now h.conn)
  | abort => exact hsame (sameUpkeep_abort h.conn)
  | setupForHandshake | timeWait | setDeadline | setReadDeadline | setWriteDeadline | broadcastSend =>
    exact hsame ⟨rfl, rfl, rfl⟩

theorem recorded_received {P : Host σ → Event → Prop} {h : Host σ} (hr : (system σ).Reach P h)
    (hok : h.conn.tsOK = true) : ∃ seg ∈ h.received, ∃ ecr, getTimestamp seg.options = some (h.conn.tsRecent, ecr) := by
  refine hr.invariant (I := fun g => g.conn.tsOK = true →
    ∃ seg ∈ g.received, ∃ ecr, getTimestamp seg.options = some (g.conn.tsRecent, ecr)) ?_ ?_ hok
  · rintro g ⟨cfg, now, rfl⟩ hno
    cases hno
  · intro g e g' _ ih _ hn hok'
    have hup := next_upkeep hn
    rw [hup.received]
    rcases hup.stamp with ⟨hts, hval⟩ | ⟨seg, hmem, -, hget⟩
    · obtain ⟨seg, hmem, hget⟩ := ih (hts.symm.trans hok')
      rw [hval]
      exact ⟨seg, List.mem_append_left _ hmem, hget⟩
    · exact ⟨seg, List.mem_append_right _ hmem, hget⟩

end Host

end Libp2px.Vtcp
