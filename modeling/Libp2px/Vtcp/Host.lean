import Libp2px.Lib.Transition
import Libp2px.Vtcp.Handle

/-!
# Connections: timer callbacks, application calls and runs

The rest of `vtcp/conn.go`: the callbacks of the four timers, `Read`, `Write`, `Close` and `Abort`.  A `Host` is a
connection with the `Write` calls that are in progress and the history that statements about runs speak of.  Every
call takes the connection's lock once and is one step; a `Write` that waits for buffer space is one step up to its
wait and one more each time it is woken.  A callback may run although its timer has been stopped meanwhile, since
`Stop` does not wait for a callback that is already blocked on the lock, so a firing is possible in every state.
-/

namespace Libp2px.Vtcp

namespace Conn

variable {σ : Type} [CongestionController σ]

open CongestionController

/-! ### Timer callbacks -/

def windowProbe (c : Conn σ) : Conn σ :=
  if c.sendBuf.pending > 0 ∧ c.sendBuf.peekUnsent 1 ≠ [] then
    let data := c.sendBuf.peekUnsent 1
    let c := c.queueSeg { c.ackSegment 0 c.sendBuf.nxt flagACK data with options := [] }
    { c with sendBuf := c.sendBuf.advanceSent data.length }
  else c

def onPersistTimeout (now : Int) (c : Conn σ) : Conn σ :=
  if c.closed ∨ c.state = .closed then c
  else if c.sndWnd > 0 then flushSendQueue now c.stopPersist
  else
    let c := c.windowProbe
    let backoff := if c.persistBackoff * 2 > maxRTO then maxRTO else c.persistBackoff * 2
    { c with persistBackoff := backoff, persistTimer := some backoff }

def resend (now : Int) (c : Conn σ) : Conn σ :=
  match c.state with
  | .synSent => c.queueSeg (c.synSegment now c.sendBuf.una)
  | .synReceived => c.queueSeg (c.synAckSegment now c.sendBuf.una)
  | .established => retransmit now c
  | .closeWait => retransmit now c
  | .finWait1 => queueFIN now c
  | .lastAck => queueFIN now c
  | _ => c

omit [CongestionController σ] in
theorem resend_frame (now : Int) (c : Conn σ) : let d := resend now c
    d = { c with sendBuf := d.sendBuf, rto := d.rto, rtoTimer := d.rtoTimer, outgoing := d.outgoing, hung := d.hung } := by
  unfold resend
  split
  · rfl
  · rfl
  · rw [retransmit_frame]
  · rw [retransmit_frame]
  · rfl
  · rfl
  · rfl

omit [CongestionController σ] in
theorem sendBuf_resend (now : Int) (c : Conn σ) :
    (resend now c).sendBuf = c.sendBuf ∨ c.state = .finWait1 ∨ c.state = .lastAck := by
  unfold resend
  split
  · exact .inl rfl
  · exact .inl rfl
  · rw [retransmit_frame]
    exact .inl rfl
  · rw [retransmit_frame]
    exact .inl rfl
  · exact .inr (.inl ‹_›)
  · exact .inr (.inr ‹_›)
  · exact .inl rfl

def giveUp (c : Conn σ) : Conn σ :=
  c.shut.stopRTO.stopKeepalive.stopPersist.broadcastRecv.broadcastSend.safeCloseEstablished

def onRTOTimeout (now : Int) (c : Conn σ) : Conn σ :=
  if c.closed ∨ c.state = .closed then c
  else
    let c := { c with retries := c.retries + 1 }
    if c.retries > maxRetries then c.giveUp
    else
      let c := { c with rto := c.rto.backoff.invalidateTiming, cc := onTimeout c.cc }
      (resend now c).startRTO

def exhausted (c : Conn σ) : Bool := !c.closed && decide (c.state ≠ .closed) && decide (maxRetries ≤ c.retries)

def resends (c : Conn σ) : Bool := !c.closed && decide (c.state ≠ .closed) && decide (c.retries < maxRetries)

/-- What a firing of the RTO timer does: nothing once the connection has ended, its end after too many retries, or
something is sent again. -/
theorem onRTOTimeout_cases (now : Int) (c : Conn σ) :
    c.resends = false ∧ onRTOTimeout now c = c ∨
    (c.closed = false ∧ c.state ≠ .closed) ∧
      (c.exhausted = true ∧ c.resends = false ∧ onRTOTimeout now c = giveUp { c with retries := c.retries + 1 } ∨
        c.resends = true ∧ onRTOTimeout now c = (resend now { c with
          retries := c.retries + 1, rto := c.rto.backoff.invalidateTiming, cc := onTimeout c.cc }).startRTO) := by
  unfold onRTOTimeout resends exhausted
  by_cases hend : c.closed = true ∨ c.state = .closed
  · refine .inl ⟨?_, if_pos hend⟩
    rcases hend with h | h <;> simp [h]
  · rw [if_neg hend]
    obtain ⟨hcl, hst⟩ := not_or.1 hend
    refine .inr ⟨⟨by simpa using hcl, hst⟩, ?_⟩
    by_cases hmax : c.retries + 1 > maxRetries
    · have hlt : ¬c.retries < maxRetries := by omega
      exact .inl ⟨by simp [hcl, hst, not_lt.1 hlt], by simp [hlt], if_pos hmax⟩
    · have hlt : c.retries < maxRetries := by omega
      exact .inr ⟨by simp [hcl, hst, hlt], if_neg hmax⟩

def onTimeWaitExpired (c : Conn σ) : Conn σ := broadcastSend (broadcastRecv { c.shut with timeWaitTimer := none })

/-- The abort of `onKeepalive` after too many unanswered probes. -/
def keepaliveAbort (c : Conn σ) : Conn σ :=
  c.shut.stopRTO.broadcastRecv.broadcastSend.safeCloseEstablished.safeCloseFinRecvd

omit [CongestionController σ] in
theorem keepaliveAbort_frame (c : Conn σ) : let d := c.keepaliveAbort
    d = { c.shut with
          rtoTimer := none, sendCond := c.sendCond + 1, establishedClosed := true, finRecvdClosed := d.finRecvdClosed
          recvCond := d.recvCond } :=
  safeCloseFinRecvd_frame c.shut.stopRTO.broadcastRecv.broadcastSend.safeCloseEstablished

def keepaliveExpired (now : Int) (c : Conn σ) : Bool :=
  !c.closed && (c.state == .established || c.state == .closeWait) &&
    decide (now - c.lastRecv > c.keepaliveIdle ∧ c.keepaliveSent ≥ c.keepaliveMax)

def onKeepalive (now : Int) (c : Conn σ) : Conn σ :=
  if c.closed ∨ c.state = .closed then c
  else if c.state ≠ .established ∧ c.state ≠ .closeWait then c
  else if now - c.lastRecv > c.keepaliveIdle ∧ c.keepaliveSent ≥ c.keepaliveMax then c.keepaliveAbort
  else
    let c :=
      if now - c.lastRecv > c.keepaliveIdle then
        let c := c.queueSeg (c.ackSegment now (c.sendBuf.nxt - 1) flagACK [])
        { c with keepaliveSent := c.keepaliveSent + 1 }
      else c
    if c.keepaliveSent > 0 then { c.stopKeepalive.stopPersist with keepaliveTimer := some c.keepaliveIntv }
    else c.startKeepalive

omit [CongestionController σ] in
/-- What a firing of the keepalive timer does: nothing, the end of a connection that has been idle for too long, or
the timer again, with a probe if the connection is idle. -/
theorem onKeepalive_cases (now : Int) (c : Conn σ) :
    onKeepalive now c = c ∨
    ((c.state = .established ∨ c.state = .closeWait) ∧ c.closed = false ∧
      (c.keepaliveExpired now = true ∧ onKeepalive now c = c.keepaliveAbort ∨
        c.keepaliveExpired now = false ∧ ∃ d ks kt,
          (d = c ∨ d = c.queueSeg (c.ackSegment now (c.sendBuf.nxt - 1) flagACK [])) ∧
          onKeepalive now c =
            { d with keepaliveSent := ks, keepaliveTimer := kt, persistTimer := none, persistBackoff := 0 })) := by
  have hrearm : ∀ d : Conn σ, ∃ kt, (if d.keepaliveSent > 0 then
      { d.stopKeepalive.stopPersist with keepaliveTimer := some d.keepaliveIntv } else d.startKeepalive) =
      { d with keepaliveTimer := kt, persistTimer := none, persistBackoff := 0 } := by
    intro d
    split
    · exact ⟨some d.keepaliveIntv, rfl⟩
    · exact ⟨some d.keepaliveIdle, startKeepalive_eq d⟩
  by_cases hopen : c.closed = true ∨ c.state = .closed
  · exact .inl (if_pos hopen)
  by_cases hst : c.state ≠ .established ∧ c.state ≠ .closeWait
  · left
    unfold onKeepalive
    rw [if_neg hopen, if_pos hst]
  have hcl : c.closed = false := Bool.eq_false_of_not_eq_true fun h => hopen (.inl h)
  have hst' : c.state = .established ∨ c.state = .closeWait := by tauto
  have hexp : c.keepaliveExpired now =
      decide (now - c.lastRecv > c.keepaliveIdle ∧ c.keepaliveSent ≥ c.keepaliveMax) := by
    unfold keepaliveExpired
    rcases hst' with hs | hs <;> rw [hcl, hs] <;> rfl
  refine .inr ⟨hst', hcl, ?_⟩
  rw [hexp]
  unfold onKeepalive
  rw [if_neg hopen, if_neg hst]
  by_cases hi : now - c.lastRecv > c.keepaliveIdle ∧ c.keepaliveSent ≥ c.keepaliveMax
  · exact .inl ⟨decide_eq_true hi, if_pos hi⟩
  right
  refine ⟨decide_eq_false hi, ?_⟩
  rw [if_neg hi]
  simp only
  by_cases hidle : now - c.lastRecv > c.keepaliveIdle
  · rw [if_pos hidle]
    obtain ⟨kt, hkt⟩ := hrearm { c.queueSeg (c.ackSegment now (c.sendBuf.nxt - 1) flagACK []) with
      keepaliveSent := c.keepaliveSent + 1 }
    exact ⟨_, c.keepaliveSent + 1, kt, .inr rfl, hkt⟩
  · rw [if_neg hidle]
    obtain ⟨kt, hkt⟩ := hrearm c
    exact ⟨c, c.keepaliveSent, kt, .inl rfl, hkt⟩

/-! ### Application calls -/

/-- What a call of `Read` comes to: data, `io.EOF`, a timeout, or a wait. -/
inductive ReadResult
  | data (b : List Byte)
  | eof
  | timeout
  | wait
  deriving DecidableEq, Repr

def read (now : Int) (n : Nat) (c : Conn σ) : Conn σ × ReadResult :=
  if !c.opened ∨ c.recvBuf.readable = 0 then
    if c.closed then (c, .eof)
    else if c.finRecvdClosed then (c, .eof)
    else
      match c.readDeadline with
      | some dl => if now > dl then (c, .timeout) else (c, .wait)
      | none => (c, .wait)
  else
    let r := c.recvBuf.read n
    ({ c with recvBuf := r.1 }, .data r.2)

omit [CongestionController σ] in
theorem read_frame (now : Int) (n : Nat) (c : Conn σ) : let d := (c.read now n).1
    d = { c with recvBuf := d.recvBuf } := by
  unfold read
  split
  · split
    · rfl
    · split
      · rfl
      · split
        · split <;> rfl
        · rfl
  · rfl

inductive WriteResult
  | done (written : Nat)
  | notEstablished
  | connClosed (written : Nat)
  | timeout (written : Nat)
  | wait (written : Nat)
  deriving DecidableEq, Repr

/-- The loop of `Write` when `rest` is left to write: the connection, how much of `rest` was taken, and the result. A
round that does not take everything leaves the buffer full, so the next one reaches the deadline check and the wait.
-/
def writeLoop (now : Int) (rest : List Byte) (written : Nat) (c : Conn σ) : Conn σ × Nat × WriteResult :=
  let r := c.sendBuf.write rest
  let c := { c with sendBuf := r.1 }
  if r.2 = rest.length then (flushSendQueue now c, r.2, .done (written + r.2))
  else
    match c.writeDeadline with
    | some dl => if now > dl then (c, r.2, .timeout (written + r.2)) else (c, r.2, .wait (written + r.2))
    | none => (c, r.2, .wait (written + r.2))

/-- `Write` from its beginning to its end or its first wait. -/
def write (now : Int) (b : List Byte) (c : Conn σ) : Conn σ × Nat × WriteResult :=
  if c.closed then (c, 0, .connClosed 0)
  else if c.state ≠ .established ∧ c.state ≠ .closeWait then (c, 0, .notEstablished)
  else c.writeLoop now b 0

/-- `Write` from a wake-up on: the state is not looked at again, only `closed`. -/
def writeResume (now : Int) (rest : List Byte) (written : Nat) (c : Conn σ) : Conn σ × Nat × WriteResult :=
  if c.closed then (c, 0, .connClosed written) else c.writeLoop now rest written

/-- `Close`; a call in FIN-WAIT-1 or FIN-WAIT-2 returns an error and does nothing. -/
def close (now : Int) (c : Conn σ) : Conn σ :=
  if c.closed then c
  else
    match c.state with
    | .established =>
      (queueFIN now ((flushSendQueue now c).setState .finWait1)).startRTO.broadcastRecv.broadcastSend
    | .closeWait => (queueFIN now (c.setState .lastAck)).startRTO.broadcastRecv.broadcastSend
    | .synSent => c.shut.stopRTO.stopKeepalive.stopPersist.broadcastRecv.broadcastSend
    | .synReceived => (queueFIN now (c.setState .finWait1)).startRTO.broadcastRecv.broadcastSend
    | .finWait1 => c
    | .finWait2 => c
    | _ => c.shut.stopRTO.stopKeepalive.stopPersist.broadcastRecv.broadcastSend

def abort (c : Conn σ) : Conn σ :=
  if c.state = .closed then c
  else
    let wasEstablished := c.state ≠ .synSent
    let c := c.shut.stopRTO.stopKeepalive.stopPersist
    let c := if wasEstablished ∧ c.opened then c.queueSeg (c.rstSegment c.sendBuf.nxt) else c
    c.broadcastRecv.broadcastSend.safeCloseEstablished.safeCloseFinRecvd

/-- What the wait at the end of `Connect` may return: `nil` once the channel of `Established` is closed. -/
def connectReturnsNil (c : Conn σ) : Bool := c.establishedClosed

end Conn

/-! ### Hosts -/

/-- A `Write` that waits: what is left, how much is written, and the number of broadcasts on `sendCond` when it began
to wait. -/
structure Writer where
  rest : List Byte
  written : Nat
  ticket : Nat
  deriving DecidableEq, Repr

/-- A connection, its waiting `Write` calls and its history: the bytes accepted and returned, the segments sent and
received. -/
structure Host (σ : Type) where
  conn : Conn σ
  writers : List Writer := []
  accepted : List Byte := []
  returned : List Byte := []
  sent : List Packet := []
  received : List Segment := []

inductive Event
  | connect (now : Int) (iss : BitVec 32)
  | acceptSYN (now : Int) (iss : BitVec 32) (syn : Segment)
  | acceptCookie (remoteSeq ourISS : BitVec 32) (mss : BitVec 16) (initialData : List Byte)
  | setupForHandshake (iss : BitVec 32)
  | segment (now : Int) (seg : Segment)
  | rto (now : Int)
  | persist (now : Int)
  | keepalive (now : Int)
  | timeWait
  | write (now : Int) (b : List Byte)
  | resume (now : Int) (i : Nat)
  | read (now : Int) (n : Nat)
  | close (now : Int)
  | abort
  | setDeadline (dl : Option Int)
  | setReadDeadline (dl : Option Int)
  | setWriteDeadline (dl : Option Int)
  | broadcastSend
  deriving DecidableEq, Repr

def Conn.retransmits {σ : Type} [CongestionController σ] (c : Conn σ) : Event → Bool
  | .rto _ => c.resends && (c.state == .established || c.state == .closeWait)
  | .segment _ seg => c.fastRetransmits seg
  | _ => false

def Conn.repeatsFIN {σ : Type} (c : Conn σ) : Event → Bool
  | .rto _ => c.resends && (c.state == .finWait1 || c.state == .lastAck)
  | _ => false

namespace Host

variable {σ : Type} [CongestionController σ]

/-- The host after a call that left the connection `c`: what the call queued is sent. -/
def finish (h : Host σ) (c : Conn σ) : Host σ :=
  { h with conn := { c with outgoing := [] }, sent := h.sent ++ c.outgoing }

/-- The host after a round of `Write`: what was taken is accepted, and a call that waits is remembered. -/
def finishWrite (h : Host σ) (rest : List Byte) (r : Conn σ × Nat × Conn.WriteResult) : Host σ :=
  let h := { h.finish r.1 with accepted := h.accepted ++ rest.take r.2.1 }
  match r.2.2 with
  | .wait written => { h with writers := h.writers ++ [⟨rest.drop r.2.1, written, r.1.sendCond⟩] }
  | _ => h

def finishRead (h : Host σ) (r : Conn σ × Conn.ReadResult) : Host σ :=
  match r.2 with
  | .data b => { h with conn := r.1, returned := h.returned ++ b }
  | _ => { h with conn := r.1 }

def woken (h : Host σ) (w : Writer) : Bool := decide (w.ticket < h.conn.sendCond)

/-- The step of one event, as far as it returns.  `SetupForHandshake` opens a fresh connection; the 2MSL timer fires
only on a connection that was in TIME-WAIT; a `Write` goes on only after it was woken. -/
def apply (h : Host σ) : Event → Option (Host σ)
  | .connect now iss => some (h.finish (h.conn.connect now iss))
  | .acceptSYN now iss syn => some { h.finish (h.conn.acceptSYN now iss syn) with received := h.received ++ [syn] }
  | .acceptCookie remoteSeq ourISS mss data => some (h.finish (h.conn.acceptCookie remoteSeq ourISS mss data))
  | .setupForHandshake iss =>
    if h.conn.opened ∨ h.conn.closed then none else some (h.finish (h.conn.setupForHandshake iss))
  | .segment now seg => some { h.finish (h.conn.handleSegment now seg) with received := h.received ++ [seg] }
  | .rto now => some (h.finish (h.conn.onRTOTimeout now))
  | .persist now => some (h.finish (h.conn.onPersistTimeout now))
  | .keepalive now => some (h.finish (h.conn.onKeepalive now))
  | .timeWait => if .timeWait ∈ h.conn.entered then some (h.finish h.conn.onTimeWaitExpired) else none
  | .write now b => some (h.finishWrite b (h.conn.write now b))
  | .resume now i =>
    match h.writers[i]? with
    | none => none
    | some w =>
      if h.woken w then
        some (finishWrite { h with writers := h.writers.eraseIdx i } w.rest (h.conn.writeResume now w.rest w.written))
      else none
  | .read now n => some (h.finishRead (h.conn.read now n))
  | .close now => some (h.finish (h.conn.close now))
  | .abort => some (h.finish h.conn.abort)
  | .setDeadline dl =>
    some { h with conn := { h.conn with readDeadline := dl, writeDeadline := dl, recvCond := h.conn.recvCond + 1 } }
  | .setReadDeadline dl => some { h with conn := { h.conn with readDeadline := dl, recvCond := h.conn.recvCond + 1 } }
  | .setWriteDeadline dl => some { h with conn := { h.conn with writeDeadline := dl, sendCond := h.conn.sendCond + 1 } }
  | .broadcastSend => some { h with conn := h.conn.broadcastSend }

/-- The step of one event: a call that does not return makes no step. -/
def next (h : Host σ) (e : Event) : Option (Host σ) :=
  match h.apply e with
  | some h' => if h'.conn.hung then none else some h'
  | none => none

def fresh (cfg : ConnConfig) (now : Int) : Host σ where
  conn := Conn.newConn cfg now

def system (σ : Type) [CongestionController σ] : Transition.System (Host σ) Event :=
  .ofNext (fun h => ∃ cfg now, h = fresh cfg now) next

def run (h : Host σ) (es : List Event) : Host σ := (Transition.exec next h es).getD h

theorem run_steps {P : Host σ → Event → Prop} {h : Host σ} {es : List Event}
    (hs : (Transition.exec next h es).isSome = true) (hP : Transition.execMeets next P h es) :
    (system σ).Steps P h (h.run es) :=
  Transition.exec_steps_getD hs hP

theorem run_reach {P : Host σ → Event → Prop} {cfg : ConnConfig} {now : Int} {es : List Event}
    (hs : (Transition.exec next (fresh cfg now : Host σ) es).isSome = true)
    (hP : Transition.execMeets next P (fresh cfg now : Host σ) es) :
    (system σ).Reach P ((fresh cfg now).run es) :=
  ⟨fresh cfg now, ⟨cfg, now, rfl⟩, run_steps hs hP⟩

theorem next_run {h : Host σ} {e : Event} (hs : (h.next e).isSome = true) : h.next e = some (h.run [e]) := by
  obtain ⟨h', hn⟩ := Option.isSome_iff_exists.1 hs
  simp [run, Transition.exec, hn]

end Host

/-- The controllers of concrete runs: the window of every connection in them is below 38 segments. -/
abbrev SmallController := Controller HSMath.low

def opening : List Event :=
  [.connect 0 100,
    .segment 0 { srcPort := 0, dstPort := 0, seq := 700, ack := 101, flags := flagSYN ||| flagACK, window := 1000 }]

end Libp2px.Vtcp
