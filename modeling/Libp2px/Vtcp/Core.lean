import Libp2px.Vtcp.Host

/-!
# The protocol core

An abstract machine over the part of a connection that the protocol is about: the state, the two buffers, the
negotiated options, the lifecycle flags and the history.  Windows, congestion control, timers and the clock are left
out, so where the connection decides by one of them the core may do either; the few such decisions that matter are
in `Occasion`.  `CoreStep e o` lists all that a connection can do to this part during the event `e`, with the guards
under which it does so; `Host.next_core` (in `Refine`) shows that every step of a connection is a sequence of core
steps.  Invariants of runs are proved on core steps.
-/

namespace Libp2px.Vtcp

structure Core where
  state : State
  entered : List State
  closed : Bool
  established : Bool
  finRecvd : Bool
  opened : Bool
  iss : BitVec 32
  sendBuf : SendBuf
  recvBuf : RecvBuf
  recvBufCap : Nat
  finPending : Bool
  pendingFinSeq : BitVec 32
  mss : Nat
  sndWndShift : Nat
  rcvWndShift : Nat
  wscaleOK : Bool
  tsEnabled : Bool
  tsOK : Bool
  sackEnabled : Bool
  sackOK : Bool
  accepted : List Byte
  returned : List Byte
  emitted : List Packet
  received : List Segment

namespace Core

def freeSpace (s : Core) : Nat :=
  if s.opened then s.recvBuf.window.toNat else if s.recvBufCap > 0 then s.recvBufCap else defaultRecvBuf

def rcvWindow (s : Core) : BitVec 16 :=
  let size := if s.recvBufCap > 0 then s.recvBufCap else defaultRecvBuf
  let swsThresh := if size / 2 < s.mss then size / 2 else s.mss
  let avail := if s.freeSpace < swsThresh then 0 else s.freeSpace
  let avail := if s.wscaleOK then avail >>> s.rcvWndShift else avail
  BitVec.ofNat 16 (if avail > 65535 then 65535 else avail)

/-- What a segment reports of the state it is built in: the next expected number, the window, and without a SYN only
negotiated options. A reset reports nothing. -/
structure Reports (s : Core) (seg : Segment) : Prop where
  window : seg.hasFlag flagRST = false → seg.window = s.rcvWindow
  ack : seg.hasFlag flagRST = false → seg.hasFlag flagACK = true → seg.ack = s.recvBuf.nxt
  options : seg.hasFlag flagSYN = false → seg.options = [] ∨ ∃ tsVal tsEcr, seg.options =
    (if s.tsOK then [timestampOption tsVal tsEcr] else []) ++
      (if s.sackOK && s.opened && s.recvBuf.hasOOO then [sackOption s.recvBuf.sackBlocks] else [])

def emit (s : Core) (seg : Segment) : Core :=
  { s with emitted := s.emitted ++ [⟨seg, s.sendBuf.pos seg.seq, s.freeSpace⟩] }

def setState (s : Core) (st : State) : Core := { s with state := st, entered := s.entered ++ [st] }

/-- The state is CLOSED for good; a teardown may also close the two channels. -/
def shut (s : Core) (est fin : Bool) : Core :=
  { s.setState .closed with closed := true, established := s.established || est, finRecvd := s.finRecvd || fin }

structure IsSyn (s : Core) (seg : Segment) : Prop where
  payload : seg.payload = []
  syn : seg.hasFlag flagSYN = true
  fin : seg.hasFlag flagFIN = false
  rst : seg.hasFlag flagRST = false
  options : ∃ ts, seg.options =
    [mssOption (BitVec.ofNat 16 s.mss), wscaleOption (BitVec.ofNat 8 s.rcvWndShift)] ++
      (if s.sackEnabled then [sackPermOption] else []) ++ (if s.tsEnabled then [timestampOption ts 0] else [])

structure IsControl (seg : Segment) : Prop where
  payload : seg.payload = []
  syn : seg.hasFlag flagSYN = false
  fin : seg.hasFlag flagFIN = false

structure IsData (seg : Segment) (seq : BitVec 32) (data : List Byte) : Prop where
  seq : seg.seq = seq
  payload : seg.payload = data
  nonempty : data ≠ []
  syn : seg.hasFlag flagSYN = false
  fin : seg.hasFlag flagFIN = false
  rst : seg.hasFlag flagRST = false

structure IsFin (seg : Segment) (seq : BitVec 32) : Prop where
  seq : seg.seq = seq
  payload : seg.payload = []
  syn : seg.hasFlag flagSYN = false
  fin : seg.hasFlag flagFIN = true
  rst : seg.hasFlag flagRST = false

def negotiate (opts : List TcpOption) (s : Core) : Core :=
  { s with
    mss := if (getMSS opts).toNat > 0 ∧ (getMSS opts).toNat < s.mss then (getMSS opts).toNat else s.mss
    sndWndShift :=
      match getWScale opts with
      | some ws => if ws.toNat > 14 then 14 else ws.toNat
      | none => s.sndWndShift
    wscaleOK := s.wscaleOK || (getWScale opts).isSome
    sackOK := s.sackOK || (s.sackEnabled && hasSACKPerm opts)
    tsOK := s.tsOK || (s.tsEnabled && (getTimestamp opts).isSome) }

/-- Fresh buffers: ours from `iss`, of which the SYN is sent if `syn`, the peer's from `irs`. -/
def openBufs (s : Core) (cap : Nat) (iss irs : BitVec 32) (syn : Nat) : Core :=
  { s with sendBuf := (newSendBuf cap iss).advanceSent syn, recvBuf := newRecvBuf irs s.recvBufCap, opened := true
           iss := iss }

def insert (s : Core) (seq : BitVec 32) (data : List Byte) : Core :=
  { s with recvBuf := (s.recvBuf.insert seq data).1 }

/-- The state after a FIN has been consumed in order; `acked`: nothing of ours is unacknowledged. -/
def afterFIN (acked : Bool) : State → State
  | .established => .closeWait
  | .finWait1 => if acked then .timeWait else .closing
  | .finWait2 => .timeWait
  | st => st

/-- The states in which a FIN is expected, and a FIN in order is answered by a transition. -/
def awaitsFIN (st : State) : Bool := st == .established || st == .finWait1 || st == .finWait2

def consumeFIN (s : Core) : Core :=
  let s := { s with recvBuf := s.recvBuf.consumeFIN }
  if awaitsFIN s.state then { s.setState (afterFIN (s.sendBuf.unacked == 0) s.state) with finRecvd := true } else s

/-- The states in which a FIN is looked at: those that await it, and those a deferred FIN of the segment has led to.
-/
def seesFIN (st : State) : Bool := awaitsFIN st || st == .closeWait || st == .closing || st == .timeWait

/-- The states in which acknowledgments of data are processed. -/
def acksData (st : State) : Bool := awaitsFIN st || st == .closeWait

theorem synchronized_of_seesFIN {st : State} (h : seesFIN st = true) : st.synchronized = true := by
  cases st <;> first | rfl | cases h

theorem synchronized_of_acksData {st : State} (h : acksData st = true) : st.synchronized = true := by
  cases st <;> first | rfl | cases h

def receive (s : Core) : Event → Core
  | .segment _ seg => { s with received := s.received ++ [seg] }
  | .acceptSYN _ _ seg => { s with received := s.received ++ [seg] }
  | _ => s

end Core

/-- What decides about steps of the core and is not seen in it: how the event ends the connection, the state in which
a waiting `Write` goes on, and the send buffer of what is sent again or of `Close`. -/
structure Occasion where
  reset : Prop
  giveUp : Prop
  idle : Prop
  abort : Prop
  resume : State → Prop
  repeatFIN : SendBuf → Prop
  retransmit : SendBuf → Prop
  fin : SendBuf → Prop

/-- What ends a connection in CLOSED during an event, and which channels this closes. -/
inductive ShutCause (e : Event) (o : Occasion) (s : Core) : Bool → Bool → Prop
  | reset {now seg} (he : e = .segment now seg) (hs : s.state ≠ .closed) (hr : seg.hasFlag flagRST = true)
      (ho : o.reset) : ShutCause e o s true true
  | lastAck {now seg} (he : e = .segment now seg) (hs : s.state = .lastAck) (ha : seg.ack = s.sendBuf.nxt) :
      ShutCause e o s false false
  | giveUp {now} (he : e = .rto now) (hs : s.state ≠ .closed) (hc : s.closed = false) (ho : o.giveUp) :
      ShutCause e o s true false
  | timeWait (he : e = .timeWait) (hs : State.timeWait ∈ s.entered) : ShutCause e o s false false
  | keepalive {now} (he : e = .keepalive now) (hs : s.state = .established ∨ s.state = .closeWait)
      (hc : s.closed = false) (ho : o.idle) : ShutCause e o s true true
  | close {now} (he : e = .close now) (hc : s.closed = false) (hs : s.state ≠ .established) :
      ShutCause e o s false false
  | abort (he : e = .abort) (hs : s.state ≠ .closed) (ho : o.abort) : ShutCause e o s true true

/-- What a connection can do to its protocol core during the event `e`. -/
inductive CoreStep (e : Event) (o : Occasion) : Core → Core → Prop
  -- opening
  | connect {s : Core} {now iss syn} (cap : Nat) (he : e = .connect now iss) (hs : s.state = .closed)
      (hsyn : Core.IsSyn s syn) (hseq : syn.seq = iss) (hrep : ((s.openBufs cap iss 0 1).setState .synSent).Reports syn)
      (hflag : syn.hasFlag flagACK = false) :
      CoreStep e o s (((s.openBufs cap iss 0 1).setState .synSent).emit syn)
  | acceptSYN {s : Core} {now iss seg syn} (cap : Nat) (he : e = .acceptSYN now iss seg)
      (hs : s.state = .closed ∨ s.state = .listen) (hsyn : Core.IsSyn (s.negotiate seg.options) syn)
      (hseq : syn.seq = iss)
      (hrep : (((s.negotiate seg.options).openBufs cap iss (seg.seq + 1) 1).setState .synReceived).Reports syn)
      (hflag : syn.hasFlag flagACK = true) :
      CoreStep e o s (((((s.negotiate seg.options).openBufs cap iss (seg.seq + 1) 1).setState .synReceived).emit
        syn).insert (seg.seq + 1) seg.payload)
  | acceptCookie {s : Core} {remoteSeq ourISS mss data} (cap m : Nat)
      (he : e = .acceptCookie remoteSeq ourISS mss data) (hs : s.state = .closed ∨ s.state = .listen) :
      CoreStep e o s ({ ((s.openBufs cap (ourISS + 1) remoteSeq 0).setState .established).insert remoteSeq data with
        iss := ourISS, established := true, mss := m })
  | setup {s : Core} {iss} (cap : Nat) (he : e = .setupForHandshake iss) (ho : s.opened = false)
      (hc : s.closed = false) :
      CoreStep e o s ((s.openBufs cap iss 0 1).setState .synSent)
  -- the handshake
  | synAckIn {s : Core} {now seg} (he : e = .segment now seg) (hs : s.state = .synSent)
      (hsyn : seg.hasFlag flagSYN = true) (hack : seg.hasFlag flagACK = true)
      (hlo : seqBeforeEq seg.ack s.sendBuf.una = false) (hhi : seqAfter seg.ack s.sendBuf.nxt = false) :
      CoreStep e o s (({ (s.negotiate seg.options).setState .established with
        sendBuf := (s.sendBuf.acknowledge seg.ack).1
        recvBuf := newRecvBuf (seg.seq + 1) s.recvBufCap }).insert (seg.seq + 1) seg.payload)
  | synIn {s : Core} {now seg} (he : e = .segment now seg) (hs : s.state = .synSent)
      (hsyn : seg.hasFlag flagSYN = true) (hack : seg.hasFlag flagACK = false) :
      CoreStep e o s (({ (s.negotiate seg.options).setState .synReceived with
        recvBuf := newRecvBuf (seg.seq + 1) s.recvBufCap }).insert (seg.seq + 1) seg.payload)
  | synRcvdAck {s : Core} {now seg} (he : e = .segment now seg) (hs : s.state = .synReceived)
      (hack : seg.ack = s.sendBuf.nxt) :
      CoreStep e o s { s.setState .established with sendBuf := (s.sendBuf.acknowledge seg.ack).1 }
  | establish {s : Core} (hs : s.state = .established) : CoreStep e o s { s with established := true }
  | syn {s : Core} {seg} (hs : s.state = .synSent ∨ s.state = .synReceived) (hsyn : Core.IsSyn s seg)
      (hseq : seg.seq = s.sendBuf.una) (hrep : s.Reports seg)
      (hflag : seg.hasFlag flagACK = decide (s.state = .synReceived)) : CoreStep e o s (s.emit seg)
  -- sending
  | control {s : Core} {seg} (h : Core.IsControl seg) (hrep : s.Reports seg)
      (hs : (seg.hasFlag flagRST = true ∧ (seg.hasFlag flagACK = true → ∃ now sg, e = .segment now sg)) ∨
        (seg.hasFlag flagRST = false ∧ s.state.synchronized = true)) : CoreStep e o s (s.emit seg)
  | chunk {s : Core} {seg n} (hs : s.closed = false ∨ s.state ≠ .closed) (hp : s.sendBuf.pending > 0)
      (h : Core.IsData seg s.sendBuf.nxt (s.sendBuf.peekUnsent n)) (hrep : s.Reports seg) :
      CoreStep e o s { s.emit seg with sendBuf := s.sendBuf.advanceSent (s.sendBuf.peekUnsent n).length }
  | rexmit {s : Core} {seg n data} (hs : s.closed = false ∨ s.state ≠ .closed) (ho : o.retransmit s.sendBuf)
      (hd : s.sendBuf.retransmitData n = some data) (h : Core.IsData seg s.sendBuf.una data) (hrep : s.Reports seg) :
      CoreStep e o s (s.emit seg)
  | ack {s : Core} {now seg} (he : e = .segment now seg) (hs : Core.acksData s.state = true)
      (hlo : seqAfter seg.ack s.sendBuf.una = true) (hhi : seqAfter seg.ack s.sendBuf.nxt = false) :
      CoreStep e o s { s with sendBuf := (s.sendBuf.acknowledge seg.ack).1 }
  | sack {s : Core} {blocks} (hs : Core.acksData s.state = true) :
      CoreStep e o s { s with sendBuf := s.sendBuf.markSACKed blocks }
  | write {s : Core} {p} (hc : s.closed = false)
      (hs : (∃ now i, e = .resume now i ∧ o.resume s.state) ∨
        ∃ now b, e = .write now b ∧ (s.state = .established ∨ s.state = .closeWait)) :
      CoreStep e o s { s with sendBuf := (s.sendBuf.write p).1, accepted := s.accepted ++ p.take (s.sendBuf.write p).2 }
  | fin {s : Core} {now seg st} (he : e = .close now) (hc : s.closed = false)
      (hs : (s.state = .established ∧ st = .finWait1) ∨ (s.state = .closeWait ∧ st = .lastAck) ∨
        (s.state = .synReceived ∧ st = .finWait1))
      (ho : o.fin s.sendBuf) (h : Core.IsFin seg s.sendBuf.nxt) (hrep : s.Reports seg) :
      CoreStep e o s { (s.setState st).emit seg with sendBuf := s.sendBuf.advanceSent 1 }
  | refin {s : Core} {now seg} (he : e = .rto now) (hc : s.closed = false)
      (hs : s.state = .finWait1 ∨ s.state = .lastAck) (ho : o.repeatFIN s.sendBuf)
      (h : Core.IsFin seg s.sendBuf.nxt) (hrep : s.Reports seg) :
      CoreStep e o s { s.emit seg with sendBuf := s.sendBuf.advanceSent 1 }
  -- receiving
  | insert {s : Core} {now seg} (he : e = .segment now seg)
      (hs : s.state = .established ∨ s.state = .finWait1 ∨ s.state = .finWait2) :
      CoreStep e o s (s.insert seg.seq seg.payload)
  | finIn {s : Core} {now seg} (he : e = .segment now seg) (hfin : seg.hasFlag flagFIN = true)
      (hs : Core.seesFIN s.state = true) (hseq : seg.seq + seg.dataLen = s.recvBuf.nxt) : CoreStep e o s s.consumeFIN
  | finDefer {s : Core} {now seg} (he : e = .segment now seg) (hfin : seg.hasFlag flagFIN = true) :
      CoreStep e o s { s with finPending := true, pendingFinSeq := seg.seq + seg.dataLen }
  | finDeferred {s : Core} {now seg} (he : e = .segment now seg) (hp : s.finPending = true)
      (hs : s.state = .established ∨ s.state = .finWait1 ∨ s.state = .finWait2) (hseq : s.pendingFinSeq = s.recvBuf.nxt) :
      CoreStep e o s { s.consumeFIN with finPending := false }
  | finAcked {s : Core} {now seg} (he : e = .segment now seg) (hs : s.state = .finWait1)
      (hack : seg.ack = s.sendBuf.nxt) : CoreStep e o s (s.setState .finWait2)
  | closingAcked {s : Core} {now seg} (he : e = .segment now seg) (hs : s.state = .closing)
      (hack : seg.ack = s.sendBuf.nxt) : CoreStep e o s (s.setState .timeWait)
  | read {s : Core} {now n} (he : e = .read now n) (ho : s.opened = true) :
      CoreStep e o s { s with recvBuf := (s.recvBuf.read n).1, returned := s.returned ++ (s.recvBuf.read n).2 }
  -- the end
  | shut {s : Core} {est fin} (h : ShutCause e o s est fin) : CoreStep e o s (s.shut est fin)

variable {e : Event} {o : Occasion} {s t : Core}

theorem CoreStep.received (h : CoreStep e o s t) : t.received = s.received := by
  cases h with
  | finIn | finDeferred =>
    unfold Core.consumeFIN
    simp only
    split <;> rfl
  | _ => rfl

theorem CoreStep.entered_subset (h : CoreStep e o s t) :
    ∀ st ∈ s.entered, st ∈ t.entered := by
  have hset : ∀ st : State, ∀ x ∈ s.entered, x ∈ s.entered ++ [st] := fun _ _ hx => List.mem_append_left _ hx
  cases h with
  | connect | acceptSYN | acceptCookie | setup | synAckIn | synIn | synRcvdAck | fin | finAcked | closingAcked | shut =>
    exact hset _
  | finIn | finDeferred =>
    unfold Core.consumeFIN
    simp only
    split
    · exact hset _
    · exact fun _ => id
  | _ => exact fun _ => id

theorem CoreStep.unopened (h : CoreStep e o s t)
    (hs : s.opened = false → s.state = .closed) : t.opened = false → t.state = .closed := by
  have hno : ∀ st, s.state = st → st ≠ .closed → s.opened = false → False := by
    rintro st rfl hne ho
    exact hne (hs ho)
  cases h with
  | connect | acceptSYN | acceptCookie | setup =>
    intro ho
    cases ho
  | synAckIn _ hst | synIn _ hst | synRcvdAck _ hst | finAcked _ hst | closingAcked _ hst =>
    exact fun ho => (hno _ hst (by decide) ho).elim
  | fin _ _ hst =>
    intro ho
    rcases hst with ⟨hst, -⟩ | ⟨hst, -⟩ | ⟨hst, -⟩ <;> exact (hno _ hst (by decide) ho).elim
  | finIn | finDeferred =>
    unfold Core.consumeFIN
    simp only
    split
    · rename_i ha
      intro ho
      have hcl : s.state = .closed := hs ho
      rw [hcl] at ha
      cases ha
    · exact hs
  | shut => exact fun _ => rfl
  | _ => exact hs

/-! ### Connections that are opened once -/

def Event.opens : Event → Bool
  | .connect _ _ | .acceptSYN _ _ _ | .acceptCookie _ _ _ _ | .setupForHandshake _ => true
  | _ => false

/-- An opening call does not find a connection that was opened and ended. -/
def Core.OpensOnce (e : Event) (s : Core) : Prop :=
  e.opens = true → s.opened = true → s.state ≠ .closed ∧ s.state ≠ .listen

theorem CoreStep.opensOnce (h : CoreStep e o s t) (hs : s.OpensOnce e) :
    t.OpensOnce e := by
  intro he ho
  have hno : ∀ e', e = e' → e'.opens = false → False := by
    rintro e' rfl hf
    cases he.symm.trans hf
  cases h with
  | connect | acceptSYN | acceptCookie | setup =>
    exact ⟨by simp [Core.setState, Core.emit, Core.insert], by simp [Core.setState, Core.emit, Core.insert]⟩
  | synAckIn he' | synIn he' | synRcvdAck he' | fin he' | finIn he' | finDeferred he' | finAcked he' | closingAcked he' =>
    exact (hno _ he' rfl).elim
  | shut hcause =>
    cases hcause with
    | reset he' | lastAck he' | giveUp he' | timeWait he' | keepalive he' | close he' | abort he' =>
      exact (hno _ he' rfl).elim
  | _ => exact hs he ho

theorem CoreStep.iss (h : CoreStep e o s t) (hs : s.OpensOnce e)
    (ho : s.opened = true) : t.opened = true ∧ t.iss = s.iss := by
  cases h with
  | connect cap he hst => exact absurd hst (hs (by rw [he]; rfl) ho).1
  | acceptSYN cap he hst => exact absurd hst (not_or.2 (hs (by rw [he]; rfl) ho))
  | acceptCookie cap m he hst => exact absurd hst (not_or.2 (hs (by rw [he]; rfl) ho))
  | setup cap he ho' => cases ho.symm.trans ho'
  | finIn | finDeferred =>
    unfold Core.consumeFIN
    simp only
    split <;> exact ⟨ho, rfl⟩
  | _ => exact ⟨ho, rfl⟩

def CoreSteps (e : Event) (o : Occasion) : Core → Core → Prop := Relation.ReflTransGen (CoreStep e o)

namespace CoreSteps

variable {e : Event} {o : Occasion} {s t u : Core}

theorem refl (s : Core) : CoreSteps e o s s := Relation.ReflTransGen.refl

theorem of_eq (h : s = t) : CoreSteps e o s t := h ▸ refl s

theorem single (h : CoreStep e o s t) : CoreSteps e o s t := Relation.ReflTransGen.single h

theorem trans (h₁ : CoreSteps e o s t) (h₂ : CoreSteps e o t u) : CoreSteps e o s u :=
  Relation.ReflTransGen.trans h₁ h₂

theorem induction {I : Core → Prop} (h : CoreSteps e o s t) (h₀ : I s)
    (hstep : ∀ s t, I s → CoreStep e o s t → I t) : I t := by
  induction h with
  | refl => exact h₀
  | tail _ hs ih => exact hstep _ _ ih hs

end CoreSteps

end Libp2px.Vtcp
