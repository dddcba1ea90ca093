import Libp2px.Vtcp.Arrival

/-!
# One byte at a time

What the calls of an established connection come to when its segments carry one byte each and little is outstanding:
a byte is written and sent, sent again when the RTO timer fires, taken in and acknowledged, and read.  A connection
that does this over and over is the same again after each byte, except for its sequence numbers, so that runs of any
length can be put together from one round.
-/

namespace Libp2px.Vtcp

open CongestionController

/-- The part of a connection that data and acknowledgments leave alone. -/
structure Settings where
  state : State
  closed : Bool
  opened : Bool
  hung : Bool
  mss : Nat
  tsOK : Bool
  sackOK : Bool
  recvBufCap : Nat
  wscaleOK : Bool
  rcvWndShift : Nat
  sndWndShift : Nat
  finPending : Bool
  deriving DecidableEq, Repr

def Settings.oneByte : Settings where
  state := .established
  closed := false
  opened := true
  hung := false
  mss := 1
  tsOK := false
  sackOK := true
  recvBufCap := 1000
  wscaleOK := true
  rcvWndShift := 0
  sndWndShift := 0
  finPending := false

/-- The segment with the byte `b` at position `x`, from the end with the initial number 100 to the one with the
initial number 700. -/
structure Packet.IsByte (x : Nat) (b : Byte) (p : Packet) : Prop where
  pos : p.pos = x
  seq : p.seg.seq = Serial.place 100 x
  ack : p.seg.ack = 701
  flags : p.seg.flags = flagACK ||| flagPSH
  options : p.seg.options = []
  payload : p.seg.payload = [b]

/-- The acknowledgment of everything before position `x`, in the other direction. -/
structure Packet.IsAck (x : Nat) (p : Packet) : Prop where
  pos : p.pos = 1
  seq : p.seg.seq = 701
  ack : p.seg.ack = Serial.place 100 x
  flags : p.seg.flags = flagACK
  options : p.seg.options = []
  payload : p.seg.payload = []
  window : p.seg.window = 999

theorem RecvBuf.insert_next {r : RecvBuf} (hooo : r.ooo = []) (hw : r.windowSize = 1000) (b : Byte) :
    (r.insert r.nxt [b]).1 = { r with buf := r.buf ++ [b], nxt := r.nxt + 1 } := by
  have hnot : seqBefore r.nxt r.nxt = false := by simp [seqBefore]
  have hedge : seqAfter (r.nxt + 1) (r.nxt + 1000) = false := by
    have hneg : r.nxt + 1 - (r.nxt + 1000) = -999 := by bv_omega
    rw [seqAfter, hneg]
    decide
  have hmerge : ∀ q : RecvBuf, q.ooo = [] → q.mergeOOO = q := by
    rintro ⟨buf, nxt, ooo, ws, i, fins⟩ rfl
    rfl
  have htrim : trimRight r r.nxt [b] (r.nxt + 1) = ({ r with buf := r.buf ++ [b], nxt := r.nxt + 1 }, 1) := by
    have hinside : ¬(r.windowSize > 0 ∧ seqAfter (r.nxt + 1) (r.nxt + BitVec.ofNat 32 r.windowSize) = true) := by
      rw [hw]
      exact fun h => Bool.false_ne_true (hedge.symm.trans h.2)
    unfold trimRight
    rw [if_neg hinside]
    unfold place
    rw [if_pos rfl, hmerge { r with buf := r.buf ++ [b], nxt := r.nxt + 1 } hooo]
    rfl
  unfold insert
  simp only [hnot, List.length_singleton]
  exact congrArg Prod.fst htrim

variable {σ : Type}

namespace Conn

def settings (c : Conn σ) : Settings where
  state := c.state
  closed := c.closed
  opened := c.opened
  hung := c.hung
  mss := c.mss
  tsOK := c.tsOK
  sackOK := c.sackOK
  recvBufCap := c.recvBufCap
  wscaleOK := c.wscaleOK
  rcvWndShift := c.rcvWndShift
  sndWndShift := c.sndWndShift
  finPending := c.finPending

/-- The sending end: the position of `SND.UNA` is `x`, and everything in the buffer has been sent. -/
structure Sends (x : Nat) (out : List Byte) (sacked : List SACKBlock) (c : Conn σ) : Prop where
  settings : c.settings = .oneByte
  sendBuf : c.sendBuf = ⟨out, 1000, Serial.place 100 x, Serial.place 100 (x + out.length), sacked, 100, x⟩
  recvBuf : c.recvBuf = newRecvBuf 701 1000
  sndWnd : 2 ≤ c.sndWnd.toNat
  outgoing : c.outgoing = []

/-- The receiving end: the position of `RCV.NXT` is `x`, and `buf` has not been read yet. -/
structure Takes (x : Nat) (buf : List Byte) (c : Conn σ) : Prop where
  settings : c.settings = .oneByte
  sendBuf : c.sendBuf = ⟨[], 1000, 701, 701, [], 700, 1⟩
  recvBuf : c.recvBuf = { newRecvBuf 101 1000 with buf := buf, nxt := Serial.place 100 x }
  outgoing : c.outgoing = []

variable {x : Nat} {out buf : List Byte} {sacked : List SACKBlock} {c : Conn σ}

theorem Sends.unacked (h : c.Sends x out sacked) (hout : out.length < 2 ^ 32) : c.sendBuf.unacked = out.length := by
  rw [h.sendBuf]
  show (Serial.place 100 (x + out.length) - Serial.place 100 x).toNat = out.length
  rw [Serial.toNat_place_sub (by omega) (by omega)]
  omega

/-! ### Sending -/

set_option linter.unusedSectionVars false

variable [CongestionController σ]

theorem flushSendQueue_one (now : Int) (hmss : c.mss = 1) (hp : c.sendBuf.pending = 1)
    (hw : c.sendBuf.unacked < c.effWnd.toNat) (hu : c.sendBuf.unacked + 1 < 2 ^ 32) :
    flushSendQueue now c = c.sendChunk now 1 ∧ (c.sendBuf.peekUnsent 1).length = 1 := by
  have hlen : c.sendBuf.buf.length = c.sendBuf.unacked + 1 := by
    unfold SendBuf.pending at hp
    omega
  obtain ⟨hchunk, hpeek⟩ := chunkSize_eq (c := c) (n := 1) (by omega) (by omega) (by omega)
  refine ⟨?_, hpeek⟩
  obtain ⟨rto, t, heq⟩ := sendChunk_frame now 1 c
  have hfuel : c.sendBuf.pending.toNat = 1 := by omega
  have hsent : ¬((c.sendChunk now 1).sendBuf.pending > 0) := by
    rw [heq, hpeek]
    show ¬((c.sendBuf.buf.length : Int) - (c.sendBuf.advanceSent 1).unacked > 0)
    rw [SendBuf.unacked_advanceSent, Nat.mod_eq_of_lt hu]
    omega
  unfold flushSendQueue
  rw [hfuel]
  unfold flushLoop
  rw [hchunk]
  unfold armPersist
  exact if_neg fun h => hsent h.1

theorem segOptions_eq_nil (now : Int) (hts : c.tsOK = false) (hooo : c.recvBuf.ooo = []) : c.segOptions now = [] := by
  unfold segOptions RecvBuf.hasOOO
  simp [hts, hooo]

theorem Sends.options (h : c.Sends x out sacked) (now : Int) : c.segOptions now = [] := by
  refine segOptions_eq_nil now (congrArg Settings.tsOK h.settings) ?_
  rw [h.recvBuf]
  rfl

theorem Sends.write (hs : c.Sends x out sacked) (hout : out.length < 2) (hw : out.length < (sendWindow c.cc).toNat)
    (b : Byte) : ∃ rto t space, c.write 0 [b] =
      ({ c with sendBuf := ⟨out ++ [b], 1000, Serial.place 100 x, Serial.place 100 (x + out.length + 1), sacked, 100, x⟩
                rto := rto, rtoTimer := t
                outgoing := [⟨c.ackSegment 0 (Serial.place 100 (x + out.length)) (flagACK ||| flagPSH) [b],
                  x + out.length, space⟩] }, 1, .done 1) := by
  let sb : SendBuf := ⟨out ++ [b], 1000, Serial.place 100 x, Serial.place 100 (x + out.length), sacked, 100, x⟩
  have hwrite : c.sendBuf.write [b] = (sb, 1) := by
    have hroom : ¬(1000 - out.length = 0) := by omega
    have hfits : ¬(1 > 1000 - out.length) := by omega
    rw [hs.sendBuf]
    unfold SendBuf.write
    simp [hroom, hfits, sb]
  have hunacked : sb.unacked = out.length := by
    show (Serial.place 100 (x + out.length) - Serial.place 100 x).toNat = out.length
    rw [Serial.toNat_place_sub (by omega) (by omega)]
    omega
  have hpend : sb.pending = 1 := by
    show ((out ++ [b]).length : Int) - sb.unacked = 1
    rw [hunacked, List.length_append, List.length_singleton]
    omega
  have hpeek : sb.peekUnsent 1 = [b] := by
    unfold SendBuf.peekUnsent
    rw [hunacked]
    show ((out ++ [b]).drop out.length).take 1 = [b]
    rw [List.drop_left]
    rfl
  have hwnd : sb.unacked < ({ c with sendBuf := sb } : Conn σ).effWnd.toNat := by
    have hsnd := hs.sndWnd
    rw [hunacked]
    show out.length < (if sendWindow c.cc < c.sndWnd then sendWindow c.cc else c.sndWnd).toNat
    split <;> omega
  obtain ⟨hflush, -⟩ := flushSendQueue_one (c := { c with sendBuf := sb }) 0 (congrArg Settings.mss hs.settings) hpend hwnd
    (by show sb.unacked + 1 < 2 ^ 32; omega)
  obtain ⟨rto, t, hsend⟩ := sendChunk_frame 0 1 ({ c with sendBuf := sb } : Conn σ)
  have hcl : c.closed = false := congrArg Settings.closed hs.settings
  have hst : c.state = .established := congrArg Settings.state hs.settings
  refine ⟨rto, t, ({ c with sendBuf := sb } : Conn σ).freeSpace, ?_⟩
  unfold Conn.write writeLoop
  rw [if_neg (by rw [hcl]; decide), if_neg (fun hne => hne.1 hst), hwrite]
  show (flushSendQueue 0 { c with sendBuf := sb }, 1, WriteResult.done (0 + 1)) = _
  have hadv : sb.advanceSent 1 =
      ⟨out ++ [b], 1000, Serial.place 100 x, Serial.place 100 (x + out.length + 1), sacked, 100, x⟩ := by
    rw [Serial.place_add 100 (x + out.length) 1]
    rfl
  have hpos : sb.pos sb.nxt = x + out.length := congrArg (x + ·) hunacked
  rw [hflush, hsend, hpeek, hs.outgoing]
  show (({ c with sendBuf := sb.advanceSent 1, rto := rto, rtoTimer := t, outgoing := [⟨_, sb.pos sb.nxt, _⟩] } : Conn σ),
    1, WriteResult.done 1) = _
  rw [hadv, hpos]
  rfl

theorem Sends.onRTOTimeout (hs : c.Sends x out sacked) (hr : c.retries < maxRetries) {d : Byte}
    (hd : c.sendBuf.retransmitData 1 = some [d]) : ∃ rto t space, c.onRTOTimeout 0 =
      { c with retries := c.retries + 1, cc := onTimeout c.cc, rto := rto, rtoTimer := t
               outgoing := [⟨c.ackSegment 0 (Serial.place 100 x) (flagACK ||| flagPSH) [d], x, space⟩] } := by
  have hst : c.state = .established := congrArg Settings.state hs.settings
  have hmss : c.mss = 1 := congrArg Settings.mss hs.settings
  have hpos : c.sendBuf.pos c.sendBuf.una = x := by
    unfold SendBuf.pos
    rw [BitVec.sub_self, hs.sendBuf]
    rfl
  have huna : c.sendBuf.una = Serial.place 100 x := by rw [hs.sendBuf]
  obtain ⟨rto, heq⟩ := onRTOTimeout_eq 0 (congrArg Settings.closed hs.settings) (by rw [hst]; decide) hr
  let e : Conn σ := { c with retries := c.retries + 1, rto := rto, cc := onTimeout c.cc }
  have hdata : e.sendBuf.retransmitData e.mss = some [d] := by
    show c.sendBuf.retransmitData c.mss = some [d]
    rw [hmss, hd]
  obtain ⟨rto', t, hret⟩ := retransmit_data 0 hdata (by simp)
  have hresend : resend 0 e = retransmit 0 e := by
    have hst' : e.state = .established := hst
    unfold resend
    rw [hst']
  refine ⟨rto', some rto'.rto, e.freeSpace, ?_⟩
  rw [heq]
  show (resend 0 e).startRTO = _
  rw [hresend, hret]
  show startRTO { e with
    rto := rto', rtoTimer := t
    outgoing := c.outgoing ++ [⟨e.ackSegment 0 c.sendBuf.una _ [d], c.sendBuf.pos c.sendBuf.una, _⟩] } = _
  rw [hs.outgoing, hpos, huna]
  rfl

/-! ### Segments at the next expected number -/

variable {seg : Segment} {b : Byte}

theorem acceptable_next (hset : c.settings = .oneByte) (hseq : seg.seq = c.recvBuf.nxt) :
    c.segmentAcceptable seg = true := by
  have hopen : c.opened = true := congrArg Settings.opened hset
  have hcap : c.recvBufCap = 1000 := congrArg Settings.recvBufCap hset
  have hwnd : c.acceptWnd = 1000 := by
    unfold acceptWnd
    rw [hcap]
    rfl
  have hin : seqInRange seg.seq c.recvBuf.nxt (c.recvBuf.nxt + c.acceptWnd) = true := by
    have hneg : c.recvBuf.nxt - (c.recvBuf.nxt + 1000) = -1000 := by bv_omega
    rw [hseq, hwnd, seqInRange, seqAfterEq, seqBefore, BitVec.sub_self, hneg]
    decide
  unfold segmentAcceptable
  simp [hopen, hin]

theorem takesACK_next (hset : c.settings = .oneByte) (hseq : seg.seq = c.recvBuf.nxt)
    (hflags : seg.flags = flagACK ∨ seg.flags = flagACK ||| flagPSH) : c.takesACK seg = true := by
  have hts : c.tsOK = false := congrArg Settings.tsOK hset
  have hrst : seg.hasFlag flagRST = false := by
    unfold Segment.hasFlag
    rcases hflags with h | h <;> rw [h] <;> decide
  have hsyn : seg.hasFlag flagSYN = false := by
    unfold Segment.hasFlag
    rcases hflags with h | h <;> rw [h] <;> decide
  have hack : seg.hasFlag flagACK = true := by
    unfold Segment.hasFlag
    rcases hflags with h | h <;> rw [h] <;> decide
  have hpaws : c.pawsOK seg.options = true := by
    unfold pawsOK
    rw [hts]
  rw [takesACK_established (congrArg Settings.state hset), acceptable_next hset hseq, hrst, hsyn, hack, hpaws]
  rfl

theorem recordTimestamp_of_not (opts : List TcpOption) (hts : c.tsOK = false) : c.recordTimestamp opts = c := by
  unfold recordTimestamp
  rw [hts]

theorem processSegACK_dup (hset : c.settings = .oneByte) (hack : seg.hasFlag flagACK = true)
    (hold : seqAfter seg.ack c.sendBuf.una = false)
    (hquiet : (onDupACK c.cc).2 = true → c.sendBuf.retransmitData c.mss = some []) :
    ∃ cc rto t, processSegACK 0 seg c =
      { c with cc := cc, sendBuf := c.sendBuf.markSACKed (getSACKBlocks seg.options), rto := rto, rtoTimer := t
               sndWnd := c.scaledWindow seg } := by
  have hsack : c.sackOK = true := congrArg Settings.sackOK hset
  have hhung : c.hung = false := congrArg Settings.hung hset
  obtain ⟨cc, out, rto, t, hung, hdup, -, hnone⟩ := processDupACK_eq 0 seg.options hhung
  obtain ⟨rfl, rfl⟩ := hnone.2 hquiet
  have hproc : processACK 0 seg.ack seg.options c = processDupACK 0 seg.options c := by
    unfold processACK
    rw [if_pos (by rw [hold]; rfl)]
  refine ⟨cc, rto, t, ?_⟩
  rw [processSegACK_of_ack 0 hack, hproc, hdup, if_pos hsack, List.append_nil, ← hhung]
  rfl

theorem Takes.processSegACK (ht : c.Takes x []) {p : Packet} (hp : p.IsByte x b)
    (hack : p.seg.hasFlag flagACK = true) : (processSegACK 0 p.seg c).Takes x [] := by
  have hold : seqAfter p.seg.ack c.sendBuf.una = false := by
    rw [hp.ack, ht.sendBuf]
    decide
  have hnone : c.sendBuf.retransmitData c.mss = some [] := by
    have hmss : c.mss = 1 := congrArg Settings.mss ht.settings
    rw [ht.sendBuf, hmss]
    rfl
  have hmark : c.sendBuf.markSACKed (getSACKBlocks p.seg.options) = c.sendBuf := by
    rw [hp.options]
    rfl
  obtain ⟨cc, rto, t, hsegACK⟩ := processSegACK_dup ht.settings hack hold fun _ => hnone
  rw [hsegACK, hmark]
  exact { ht with }

theorem Takes.dataAndFIN (ht : c.Takes x []) {p : Packet} (hp : p.IsByte x b) :
    (dataAndFIN p.seg c).Takes (x + 1) [b] := by
  have hfin : p.seg.hasFlag flagFIN = false := by
    unfold Segment.hasFlag
    rw [hp.flags]
    decide
  have hpay : p.seg.payload ≠ [] := by
    rw [hp.payload]
    simp
  have hnxt : c.recvBuf.nxt = Serial.place 100 x := by rw [ht.recvBuf]
  have hins : (c.recvBuf.insert p.seg.seq p.seg.payload).1 =
      { newRecvBuf 101 1000 with buf := [b], nxt := Serial.place 100 (x + 1) } := by
    have hone := RecvBuf.insert_next (r := c.recvBuf) (by rw [ht.recvBuf]; rfl) (by rw [ht.recvBuf]; rfl) b
    rw [hp.seq, hp.payload, ← hnxt, hone, ht.recvBuf, Serial.place_add 100 x 1]
    rfl
  have hpend : c.finPending = false := congrArg Settings.finPending ht.settings
  have hunready : ¬(c.finPending = true ∧ c.pendingFinSeq = (c.recvBuf.insert p.seg.seq p.seg.payload).1.nxt) :=
    fun h => Bool.false_ne_true (hpend.symm.trans h.1)
  obtain ⟨n, hdata⟩ := processData_unready hunready
  have hst : c.state ≠ .finWait1 := by
    have hest : c.state = .established := congrArg Settings.state ht.settings
    rw [hest]
    decide
  unfold Conn.dataAndFIN
  simp only [if_pos hpay, hfin, Bool.false_eq_true, if_false, hdata]
  rw [if_neg (fun h => hst h.1)]
  exact { ht with recvBuf := hins }

theorem Takes.handleSegment (ht : c.Takes x []) {p : Packet} (hp : p.IsByte x b) :
    ∃ d : Conn σ, c.handleSegment 0 p.seg = queueACK 0 d ∧ d.Takes (x + 1) [b] := by
  have hst : c.state = .established := congrArg Settings.state ht.settings
  have hcw : c.state ≠ .closeWait := by
    rw [hst]
    decide
  have hseq : p.seg.seq = c.recvBuf.nxt := by rw [hp.seq, ht.recvBuf]
  obtain ⟨hack, hpaws, heq⟩ := handleSegment_takesACK 0 (by rw [hst]; rfl)
    (takesACK_next ht.settings hseq (.inr hp.flags))
  have hpay : p.seg.payload ≠ [] := by
    rw [hp.payload]
    simp
  have ht' : (c.touch 0).Takes x [] := { ht with }
  refine ⟨_, ?_, (ht'.processSegACK hp hack).dataAndFIN hp⟩
  rw [heq, if_neg hcw, handleDataState_eq (c := c.touch 0) 0 (hpaws hcw), if_pos (.inl hpay),
    recordTimestamp_of_not p.seg.options (congrArg Settings.tsOK ht'.settings)]

theorem Sends.processACK (hs : c.Sends x [b] []) : ∃ rto t pt pb n,
    processACK 0 (Serial.place 100 (x + 1)) [] c =
      { c with sendBuf := ⟨[], 1000, Serial.place 100 (x + 1), Serial.place 100 (x + 1), [], 100, x + 1⟩, retries := 0
               cc := ccAfterACK c.cc (Serial.place 100 (x + 1)) 1, rto := rto, rtoTimer := t, persistTimer := pt
               persistBackoff := pb, sendCond := n } := by
  have hdist : Serial.place 100 (x + 1) - Serial.place 100 x = (1 : BitVec 32) := by
    rw [Serial.place_add]
    bv_omega
  have hlo : seqAfter (Serial.place 100 (x + 1)) c.sendBuf.una = true := by
    rw [hs.sendBuf, seqAfter, hdist]
    decide
  have hhi : seqAfter (Serial.place 100 (x + 1)) c.sendBuf.nxt = false := by
    rw [hs.sendBuf]
    show decide ((Serial.place 100 (x + 1) - Serial.place (100 : BitVec 32) (x + 1)).toInt > 0) = false
    rw [BitVec.sub_self]
    decide
  have hack : c.sendBuf.acknowledge (Serial.place 100 (x + 1)) =
      (⟨[], 1000, Serial.place 100 (x + 1), Serial.place 100 (x + 1), [], 100, x + 1⟩, 1) := by
    unfold SendBuf.acknowledge
    simp only [hlo, hhi, Bool.not_true, Bool.false_eq_true, if_false]
    rw [hs.sendBuf]
    simp only [hdist]
    rfl
  have hsack : ∀ d : Conn σ, updateSACK [] d = d := by
    intro d
    unfold updateSACK
    split <;> rfl
  let d : Conn σ := { c with sendBuf := ⟨[], 1000, Serial.place 100 (x + 1), Serial.place 100 (x + 1), [], 100, x + 1⟩
                             retries := 0, cc := ccAfterACK c.cc (Serial.place 100 (x + 1)) 1 }
  have happ : c.applyACK (Serial.place 100 (x + 1)) = d := by
    unfold applyACK
    rw [hack]
  rw [processACK_new 0 _ hlo hhi, processNewACK, happ, hsack, rearm_frame, flushSendQueue_of_sent 0 (show (0 : Int) - _ ≤ 0 by omega)]
  exact ⟨_, _, _, _, c.sendCond + 1, rfl⟩

theorem Takes.rcvWindow (ht : c.Takes x [b]) : c.rcvWindow = 999 := by
  have hopen : c.opened = true := congrArg Settings.opened ht.settings
  have hcap : c.recvBufCap = 1000 := congrArg Settings.recvBufCap ht.settings
  have hmss : c.mss = 1 := congrArg Settings.mss ht.settings
  have hscale : c.wscaleOK = true := congrArg Settings.wscaleOK ht.settings
  have hshift : c.rcvWndShift = 0 := congrArg Settings.rcvWndShift ht.settings
  have hwnd : c.recvBuf.window = 999 := by
    rw [ht.recvBuf]
    rfl
  unfold Conn.rcvWindow recvBufSize
  simp only [hopen, hcap, hmss, hscale, hshift, hwnd]
  decide

theorem handleSegment_ack (hset : c.settings = .oneByte) (hseq : seg.seq = c.recvBuf.nxt)
    (hflags : seg.flags = flagACK) (hpay : seg.payload = []) :
    seg.hasFlag flagACK = true ∧ c.handleSegment 0 seg = processSegACK 0 seg (c.touch 0) := by
  have hts : (c.touch 0).tsOK = false := congrArg Settings.tsOK hset
  have hflag : ∀ f, seg.hasFlag f = (flagACK &&& f != 0) := by
    intro f
    unfold Segment.hasFlag
    rw [hflags]
  have hack : seg.hasFlag flagACK = true := by
    rw [hflag]
    decide
  have hpure : seg.pureACK = true := by
    unfold Segment.pureACK Segment.payloadFreeACK
    simp only [hflag, hpay]
    decide
  refine ⟨hack, ?_⟩
  rw [handleSegment_pureACK 0 (congrArg Settings.state hset) hpure (takesACK_next hset hseq (.inl hflags)),
    recordTimestamp_of_not seg.options hts, processSegACK_of_ack 0 hack]

theorem Sends.handleSegment (hs : c.Sends x [b] []) {q : Packet} (hq : q.IsAck (x + 1)) :
    (c.handleSegment 0 q.seg).Sends (x + 1) [] [] ∧ (c.handleSegment 0 q.seg).retries = 0 ∧
      (c.handleSegment 0 q.seg).cc = ccAfterACK c.cc (Serial.place 100 (x + 1)) 1 := by
  have hseq : q.seg.seq = c.recvBuf.nxt := by
    rw [hq.seq, hs.recvBuf]
    rfl
  obtain ⟨hack, heq⟩ := handleSegment_ack hs.settings hseq hq.flags hq.payload
  have hs' : (c.touch 0).Sends x [b] [] := { hs with }
  obtain ⟨rto, t, pt, pb, n, hproc⟩ := hs'.processACK
  rw [heq, processSegACK_of_ack 0 hack, hq.ack, hq.options, hproc]
  refine ⟨{ hs with sendBuf := rfl, sndWnd := ?_ }, rfl, rfl⟩
  show 2 ≤ ((q.seg.window.zeroExtend 32) <<< c.sndWndShift).toNat
  have hshift : c.sndWndShift = 0 := congrArg Settings.sndWndShift hs.settings
  rw [hq.window, hshift]
  decide

theorem Sends.handleSegment_old (hs : c.Sends x out sacked) (hseq : seg.seq = 701)
    (hflags : seg.flags = flagACK) (hpay : seg.payload = []) (hold : seqAfter seg.ack (Serial.place 100 x) = false)
    (hquiet : (onDupACK c.cc).2 = false) (hwnd : seg.window = 999) {sacked' : List SACKBlock}
    (hmark : c.sendBuf.markSACKed (getSACKBlocks seg.options) = { c.sendBuf with sacked := sacked' }) :
    (c.handleSegment 0 seg).Sends x out sacked' ∧ (c.handleSegment 0 seg).retries = c.retries := by
  have hseq' : seg.seq = c.recvBuf.nxt := by
    rw [hseq, hs.recvBuf]
    rfl
  obtain ⟨hack, heq⟩ := handleSegment_ack hs.settings hseq' hflags hpay
  have hold' : seqAfter seg.ack c.sendBuf.una = false := by
    rw [hs.sendBuf]
    exact hold
  obtain ⟨cc, rto, t, hproc⟩ := processSegACK_dup (c := c.touch 0) hs.settings hack hold'
    fun h => absurd (hquiet.symm.trans h) Bool.false_ne_true
  have hmark' : (c.touch 0).sendBuf.markSACKed (getSACKBlocks seg.options) = { c.sendBuf with sacked := sacked' } := hmark
  rw [heq, hproc, hmark', hs.sendBuf]
  refine ⟨{ hs with sendBuf := rfl, sndWnd := ?_ }, rfl⟩
  show 2 ≤ ((seg.window.zeroExtend 32) <<< c.sndWndShift).toNat
  have hshift : c.sndWndShift = 0 := congrArg Settings.sndWndShift hs.settings
  rw [hwnd, hshift]
  decide

end Conn

namespace Host

open Conn

variable [CongestionController σ] {x : Nat} {out buf : List Byte} {sacked : List SACKBlock} {h : Host σ}

theorem write_byte (hs : h.conn.Sends x out sacked) (hout : out.length < 2)
    (hw : out.length < (sendWindow h.conn.cc).toNat) (b : Byte) :
    ∃ h' p, h.next (.write 0 [b]) = some h' ∧ h'.conn.Sends x (out ++ [b]) sacked ∧ h'.conn.cc = h.conn.cc ∧
      h'.conn.retries = h.conn.retries ∧ h'.accepted = h.accepted ++ [b] ∧ h'.returned = h.returned ∧
      h'.sent = h.sent ++ [p] ∧ p.IsByte (x + out.length) b := by
  obtain ⟨rto, t, space, hcall⟩ := hs.write hout hw b
  refine ⟨h.finishWrite [b] (h.conn.write 0 [b]),
    ⟨h.conn.ackSegment 0 (Serial.place 100 (x + out.length)) (flagACK ||| flagPSH) [b], x + out.length, space⟩,
    next_of_apply rfl ?_, ?_⟩
  · rw [hcall]
    exact congrArg Settings.hung hs.settings
  · rw [hcall]
    refine ⟨{ hs with sendBuf := ?_, outgoing := rfl }, rfl, rfl, rfl, rfl, rfl, rfl, rfl, ?_, rfl, hs.options 0, rfl⟩
    · rw [List.length_append, List.length_singleton, ← Nat.add_assoc]
      rfl
    · show h.conn.recvBuf.nxt = 701
      rw [hs.recvBuf]
      rfl

theorem resend_byte (hs : h.conn.Sends x out sacked) (hr : h.conn.retries < maxRetries) {d : Byte}
    (hd : h.conn.sendBuf.retransmitData 1 = some [d]) :
    ∃ h' p, h.next (.rto 0) = some h' ∧ h'.conn.Sends x out sacked ∧ h'.conn.cc = onTimeout h.conn.cc ∧
      h'.accepted = h.accepted ∧ h'.returned = h.returned ∧ h'.sent = h.sent ++ [p] ∧ p.IsByte x d := by
  obtain ⟨rto, t, space, hcall⟩ := hs.onRTOTimeout hr hd
  refine ⟨h.finish (h.conn.onRTOTimeout 0),
    ⟨h.conn.ackSegment 0 (Serial.place 100 x) (flagACK ||| flagPSH) [d], x, space⟩, next_of_apply rfl ?_, ?_⟩
  · rw [hcall]
    exact congrArg Settings.hung hs.settings
  · rw [hcall]
    refine ⟨{ hs with outgoing := rfl }, rfl, rfl, rfl, rfl, rfl, rfl, ?_, rfl, hs.options 0,
      rfl⟩
    show h.conn.recvBuf.nxt = 701
    rw [hs.recvBuf]
    rfl

theorem take_byte (ht : h.conn.Takes x []) {p : Packet} {b : Byte} (hp : p.IsByte x b) :
    ∃ h' q, h.next (.segment 0 p.seg) = some h' ∧ h'.conn.Takes (x + 1) [b] ∧ h'.returned = h.returned ∧
      h'.sent = h.sent ++ [q] ∧ q.IsAck (x + 1) := by
  obtain ⟨d, hcall, hd⟩ := ht.handleSegment hp
  refine ⟨{ h.finish (h.conn.handleSegment 0 p.seg) with received := h.received ++ [p.seg] },
    ⟨d.ackSegment 0 d.sendBuf.nxt flagACK [], d.sendBuf.pos d.sendBuf.nxt, d.freeSpace⟩, next_of_apply rfl ?_, ?_⟩
  · rw [hcall]
    exact congrArg Settings.hung hd.settings
  · rw [hcall]
    refine ⟨{ hd with outgoing := rfl }, rfl, ?_, ?_, ?_, ?_, rfl, ?_, rfl, ?_⟩
    · show h.sent ++ (d.outgoing ++ _) = _
      rw [hd.outgoing]
      rfl
    · show d.sendBuf.pos d.sendBuf.nxt = 1
      rw [hd.sendBuf]
      rfl
    · show d.sendBuf.nxt = 701
      rw [hd.sendBuf]
    · show d.recvBuf.nxt = _
      rw [hd.recvBuf]
    · refine segOptions_eq_nil 0 (congrArg Settings.tsOK hd.settings) ?_
      rw [hd.recvBuf]
      rfl
    · exact hd.rcvWindow

theorem read_byte {b : Byte} (ht : h.conn.Takes x [b]) :
    ∃ h', h.next (.read 0 1) = some h' ∧ h'.conn.Takes x [] ∧ h'.returned = h.returned ++ [b] ∧ h'.sent = h.sent := by
  have hopen : h.conn.opened = true := congrArg Settings.opened ht.settings
  have hread : h.conn.read 0 1 = ({ h.conn with recvBuf := (h.conn.recvBuf.read 1).1 }, .data [b]) := by
    have hbuf : h.conn.recvBuf.buf = [b] := by rw [ht.recvBuf]
    unfold Conn.read RecvBuf.readable RecvBuf.read
    simp [hopen, hbuf]
  refine ⟨h.finishRead (h.conn.read 0 1), next_of_apply rfl ?_, ?_⟩
  · rw [hread]
    exact congrArg Settings.hung ht.settings
  · rw [hread]
    refine ⟨{ ht with recvBuf := ?_ }, rfl, rfl⟩
    show (h.conn.recvBuf.read 1).1 = _
    rw [ht.recvBuf]
    rfl

theorem ack_byte {b : Byte} (hs : h.conn.Sends x [b] []) {q : Packet} (hq : q.IsAck (x + 1)) :
    ∃ h', h.next (.segment 0 q.seg) = some h' ∧ h'.conn.Sends (x + 1) [] [] ∧ h'.conn.retries = 0 ∧
      h'.conn.cc = ccAfterACK h.conn.cc (Serial.place 100 (x + 1)) 1 ∧ h'.accepted = h.accepted ∧
      h'.returned = h.returned := by
  obtain ⟨hidle, hret, hcc⟩ := hs.handleSegment hq
  exact ⟨{ h.finish (h.conn.handleSegment 0 q.seg) with received := h.received ++ [q.seg] },
    next_of_apply rfl (congrArg Settings.hung hidle.settings),
    { hidle with outgoing := rfl }, hret, hcc, rfl, rfl⟩

theorem old_ack (hs : h.conn.Sends x out sacked) (seg : Segment) (hseq : seg.seq = 701) (hflags : seg.flags = flagACK)
    (hpay : seg.payload = []) (hold : seqAfter seg.ack (Serial.place 100 x) = false)
    (hquiet : (onDupACK h.conn.cc).2 = false) (hwnd : seg.window = 999) {sacked' : List SACKBlock}
    (hmark : h.conn.sendBuf.markSACKed (getSACKBlocks seg.options) = { h.conn.sendBuf with sacked := sacked' }) :
    ∃ h', h.next (.segment 0 seg) = some h' ∧ h'.conn.Sends x out sacked' ∧ h'.conn.retries = h.conn.retries ∧
      h'.accepted = h.accepted := by
  obtain ⟨hd, hret⟩ := hs.handleSegment_old hseq hflags hpay hold hquiet hwnd hmark
  exact ⟨{ h.finish (h.conn.handleSegment 0 seg) with received := h.received ++ [seg] },
    next_of_apply rfl (congrArg Settings.hung hd.settings), { hd with outgoing := rfl }, hret, rfl⟩

end Host

/-! ### Congestion windows -/

namespace Controller

variable {H : HSMath} {cc : Controller H}

/-- A NewReno window of at least two segments of one byte, outside of recovery. -/
def isOpen : Controller H → Bool
  | newReno nr => decide (2 ≤ nr.cwnd.toNat) && decide (nr.mss = 1) && !nr.recovery && decide (nr.dupAckCnt = 0)
  | highSpeed _ => false

theorem sendWindow_of_isOpen (h : cc.isOpen = true) : 2 ≤ (sendWindow cc).toNat := by
  cases cc with
  | newReno nr =>
    simp only [isOpen, Bool.and_eq_true, decide_eq_true_eq] at h
    exact h.1.1.1
  | highSpeed hs => cases h

theorem onDupACK_of_isOpen (h : cc.isOpen = true) : (onDupACK cc).2 = false := by
  cases cc with
  | newReno nr =>
    simp only [isOpen, Bool.and_eq_true, decide_eq_true_eq] at h
    show nr.onDupACK.2 = false
    unfold NewReno.onDupACK
    simp [h.2]
  | highSpeed hs => cases h

theorem isOpen_round (h : cc.isOpen = true) (ack : BitVec 32) : (Conn.ccAfterACK (onTimeout cc) ack 1).isOpen = true := by
  cases cc with
  | newReno nr =>
    simp only [isOpen, Bool.and_eq_true, decide_eq_true_eq] at h
    have hmss := h.1.1.2
    have hslow : (1 : BitVec 32) < max32 (nr.cwnd / 2) (2 * 1) := by
      unfold max32
      split <;> bv_omega
    have hack : nr.onTimeout.onACK 1 = { nr.onTimeout with dupAckCnt := 0, cwnd := 2 } := by
      unfold NewReno.onACK NewReno.onACKWith NewReno.onTimeout NewReno.restart
      simp only [hmss]
      rw [if_pos hslow]
      rfl
    show (Conn.ccAfterACK (newReno nr.onTimeout : Controller H) ack 1).isOpen = true
    have hcc : Conn.ccAfterACK (newReno nr.onTimeout : Controller H) ack 1 =
        newReno { nr.onTimeout with dupAckCnt := 0, cwnd := 2 } := by
      unfold Conn.ccAfterACK
      show (if (nr.onTimeout.onACK 1).recovery && _ then _ else newReno (nr.onTimeout.onACK 1)) = _
      rw [hack]
      rfl
    rw [hcc]
    show (decide (2 ≤ (2 : BitVec 32).toNat) && decide (nr.mss = 1) && !false && decide (0 = 0)) = true
    simp [hmss]
  | highSpeed hs => cases h

end Controller

/-! ### Rounds -/

namespace Network

open Transition

variable {cfg : Side → ConnConfig}

section steps

variable [CongestionController σ]

/-- The segment lies within half the number space of the next expected number of the connection it is delivered to. -/
def Near (h : Host σ) (p : Packet) : Prop :=
  h.consumed + 1 ≤ p.pos + 2 ^ 31 ∧ p.pos + p.seg.payload.length ≤ h.consumed + 1 + 2 ^ 31

instance (h : Host σ) (p : Packet) : Decidable (Near h p) := by
  unfold Near
  infer_instance

def DeliversNear (n : Network σ) : Action → Prop
  | .deliver s _ p => Near (n.host s) p
  | _ => True

instance (n : Network σ) (a : Action) : Decidable (DeliversNear n a) :=
  match a with
  | .deliver s _ p => inferInstanceAs (Decidable (Near (n.host s) p))
  | .call _ _ | .accept _ _ _ _ | .setup _ _ => inferInstanceAs (Decidable True)

variable {n : Network σ} {s : Side} {h' : Host σ}

theorem steps_call {e : Event} (hal : n.allows (.call s e) = true) (hn : (n.host s).next e = some h') :
    (system σ cfg).Steps DeliversNear n (n.setEndpoint s ⟨h', (n.endpoint s).syn⟩) := by
  exact .single (l := .call s e) trivial (next_eq_some hal hn)

theorem steps_deliver {p : Packet} (hp : p ∈ (n.host s.other).sent) (hnear : Near (n.host s) p)
    (hn : (n.host s).next (.segment 0 p.seg) = some h') :
    (system σ cfg).Steps DeliversNear n (n.setEndpoint s ⟨h', (n.endpoint s).syn⟩) := by
  have hal : n.allows (.deliver s 0 p) = true := decide_eq_true (List.mem_append_right _ hp)
  exact .single (l := .deliver s 0 p) hnear (next_eq_some hal hn)

end steps

variable {H : HSMath} {x : Nat} {k : Packet} {n : Network (Controller H)}

/-- Between two rounds: everything written has been acknowledged and read, and the right end has sent the packet `k`.
-/
structure Idle (x : Nat) (k : Packet) (n : Network (Controller H)) : Prop where
  sender : (n.conn .left).Sends x [] []
  receiver : (n.conn .right).Takes x []
  cc : (n.conn .left).cc.isOpen = true
  retries : (n.conn .left).retries = 0
  stream : (n.host .right).returned = (n.host .left).accepted
  length : (n.host .right).returned.length + 1 = x
  unread : (n.host .left).returned = []
  kept : k ∈ (n.host .right).sent

theorem near_byte {h : Host (Controller H)} {p : Packet} {b : Byte} (ht : h.conn.Takes x [])
    (hlen : h.returned.length + 1 = x) (hp : p.IsByte x b) : Near h p := by
  have hcons : h.consumed + 1 = x := by
    unfold Host.consumed
    rw [ht.recvBuf]
    exact hlen
  unfold Near
  rw [hcons, hp.pos, hp.payload, List.length_singleton]
  omega

theorem near_ack {h : Host (Controller H)} {q : Packet} {out : List Byte} {sacked : List SACKBlock}
    (hs : h.conn.Sends x out sacked) (hret : h.returned = []) (hpos : q.pos = 1) (hpay : q.seg.payload = []) : Near h q := by
  have hcons : h.consumed = 0 := by
    unfold Host.consumed
    rw [hs.recvBuf, hret]
    rfl
  unfold Near
  rw [hcons, hpos, hpay]
  decide

theorem Idle.round (cfg : Side → ConnConfig) (hi : n.Idle x k) (b : Byte) :
    ∃ n', (system (Controller H) cfg).Steps DeliversNear n n' ∧ n'.Idle (x + 1) k := by
  have hwin := Controller.sendWindow_of_isOpen hi.cc
  obtain ⟨l₁, p, hl₁, hs₁, hcc₁, hret₁, hacc₁, hun₁, hsent₁, hp⟩ := Host.write_byte hi.sender (by decide)
    (show 0 < (sendWindow (n.conn .left).cc).toNat by omega) b
  -- the timer fires before the acknowledgment arrives, which keeps the congestion window small
  have hdata : l₁.conn.sendBuf.retransmitData 1 = some [b] := by
    have hu := hs₁.unacked (by simp)
    unfold SendBuf.retransmitData
    rw [hu, hs₁.sendBuf]
    rfl
  have hret : l₁.conn.retries = 0 := hret₁.trans hi.retries
  obtain ⟨l₂, p', hl₂, hs₂, hcc₂, hacc₂, hun₂, hsent₂, hp'⟩ := Host.resend_byte hs₁ (by rw [hret]; decide) hdata
  obtain ⟨r₁, q, hr₁, ht₁, hread₁, hrsent₁, hq⟩ := Host.take_byte hi.receiver hp'
  obtain ⟨r₂, hr₂, ht₂, hread₂, hrsent₂⟩ := Host.read_byte ht₁
  obtain ⟨l₃, hl₃, hs₃, hret₃, hcc₃, hacc₃, hun₃⟩ := Host.ack_byte hs₂ hq
  have hreturned : r₂.returned = (n.host .right).returned ++ [b] := by rw [hread₂, hread₁]
  have haccepted : l₃.accepted = (n.host .left).accepted ++ [b] := by rw [hacc₃, hacc₂, hacc₁]
  have hunread : l₂.returned = [] := by rw [hun₂, hun₁, hi.unread]
  let n₁ := n.setEndpoint .left ⟨l₁, n.left.syn⟩
  let n₂ := n₁.setEndpoint .left ⟨l₂, n.left.syn⟩
  let n₃ := n₂.setEndpoint .right ⟨r₁, n.right.syn⟩
  let n₄ := n₃.setEndpoint .right ⟨r₂, n.right.syn⟩
  let n₅ := n₄.setEndpoint .left ⟨l₃, n.left.syn⟩
  have h₁ : (system (Controller H) cfg).Steps DeliversNear n n₁ := steps_call (s := .left) rfl hl₁
  have h₂ : (system (Controller H) cfg).Steps DeliversNear n₁ n₂ := steps_call (s := .left) rfl hl₂
  have h₃ : (system (Controller H) cfg).Steps DeliversNear n₂ n₃ := by
    refine steps_deliver (s := .right) (p := p') ?_ (near_byte hi.receiver hi.length hp') hr₁
    show p' ∈ l₂.sent
    rw [hsent₂]
    exact List.mem_append_right _ (List.mem_singleton.2 rfl)
  have h₄ : (system (Controller H) cfg).Steps DeliversNear n₃ n₄ := steps_call (s := .right) rfl hr₂
  have h₅ : (system (Controller H) cfg).Steps DeliversNear n₄ n₅ := by
    refine steps_deliver (s := .left) (p := q) ?_ (near_ack hs₂ hunread hq.pos hq.payload) hl₃
    show q ∈ r₂.sent
    rw [hrsent₂, hrsent₁]
    exact List.mem_append_right _ (List.mem_singleton.2 rfl)
  refine ⟨n₅, (((h₁.trans h₂).trans h₃).trans h₄).trans h₅, hs₃, ht₂, ?_, hret₃, ?_, ?_, ?_, ?_⟩
  · show l₃.conn.cc.isOpen = true
    rw [hcc₃, hcc₂, hcc₁]
    exact Controller.isOpen_round hi.cc _
  · show r₂.returned = l₃.accepted
    rw [hreturned, haccepted, hi.stream]
  · show r₂.returned.length + 1 = x + 1
    rw [hreturned, List.length_append, List.length_singleton, hi.length]
  · show l₃.returned = []
    rw [hun₃, hunread]
  · show k ∈ r₂.sent
    rw [hrsent₂, hrsent₁]
    exact List.mem_append_left _ hi.kept

theorem Idle.rounds (cfg : Side → ConnConfig) (hi : n.Idle x k) (m : Nat) :
    ∃ n', (system (Controller H) cfg).Steps DeliversNear n n' ∧ n'.Idle (x + m) k := by
  induction m with
  | zero => exact ⟨n, .refl n, hi⟩
  | succ m ih =>
    obtain ⟨n', hsteps, hi'⟩ := ih
    obtain ⟨n'', hround, hi''⟩ := hi'.round cfg 0
    exact ⟨n'', hsteps.trans hround, hi''⟩

/-- The acknowledgment that reports the byte with the number 102 when the byte before it is missing. -/
def blockAck : Packet where
  seg :=
    { srcPort := 0, dstPort := 0, seq := 701, ack := 101, flags := flagACK, window := 999
      options := [sackOption [⟨102, 103⟩]] }
  pos := 1
  space := 999

/-- After `2^32` bytes the block of the old acknowledgment covers `SND.UNA` again.  The next firing of the RTO timer
skips the byte 20 at `SND.UNA` and sends the byte 21 after it under that number. -/
theorem Idle.block_again (cfg : Side → ConnConfig) (hi : n.Idle (2 ^ 32 + 2) blockAck) :
    ∃ n', (system (Controller H) cfg).Steps DeliversNear n n' ∧ (n'.conn .left).state = .established ∧
      (n'.conn .right).state = .established ∧ ¬(n'.host .right).returned <+: (n'.host .left).accepted := by
  have hwin := Controller.sendWindow_of_isOpen hi.cc
  obtain ⟨l₁, p₁, hl₁, hs₁, hcc₁, hret₁, hacc₁, hun₁, -, -⟩ := Host.write_byte hi.sender (by decide)
    (show 0 < (sendWindow (n.conn .left).cc).toNat by omega) 20
  have hwin₁ : 2 ≤ (sendWindow l₁.conn.cc).toNat := by
    rw [hcc₁]
    exact hwin
  obtain ⟨l₂, p₂, hl₂, hs₂, hcc₂, hret₂, hacc₂, hun₂, -, -⟩ := Host.write_byte hs₁ (by decide)
    (show 1 < (sendWindow l₁.conn.cc).toNat by omega) 21
  have hquiet : (onDupACK l₂.conn.cc).2 = false := by
    rw [hcc₂, hcc₁]
    exact Controller.onDupACK_of_isOpen hi.cc
  have hmark : l₂.conn.sendBuf.markSACKed (getSACKBlocks blockAck.seg.options) =
      { l₂.conn.sendBuf with sacked := [⟨102, 103⟩] } := by
    rw [hs₂.sendBuf]
    decide +kernel
  obtain ⟨l₃, hl₃, hs₃, hret₃, hacc₃⟩ := Host.old_ack hs₂ blockAck.seg rfl rfl rfl (by decide +kernel) hquiet rfl hmark
  have hdata : l₃.conn.sendBuf.retransmitData 1 = some [21] := by
    rw [hs₃.sendBuf]
    decide +kernel
  have hret : l₃.conn.retries = 0 := ((hret₃.trans hret₂).trans hret₁).trans hi.retries
  obtain ⟨l₄, p, hl₄, hs₄, -, hacc₄, -, hsent₄, hp⟩ := Host.resend_byte hs₃ (by rw [hret]; decide) hdata
  obtain ⟨r₁, q, hr₁, ht₁, hread₁, -, -⟩ := Host.take_byte hi.receiver hp
  obtain ⟨r₂, hr₂, ht₂, hread₂, -⟩ := Host.read_byte ht₁
  let n₁ := n.setEndpoint .left ⟨l₁, n.left.syn⟩
  let n₂ := n₁.setEndpoint .left ⟨l₂, n.left.syn⟩
  let n₃ := n₂.setEndpoint .left ⟨l₃, n.left.syn⟩
  let n₄ := n₃.setEndpoint .left ⟨l₄, n.left.syn⟩
  let n₅ := n₄.setEndpoint .right ⟨r₁, n.right.syn⟩
  let n₆ := n₅.setEndpoint .right ⟨r₂, n.right.syn⟩
  have h₁ : (system (Controller H) cfg).Steps DeliversNear n n₁ := steps_call (s := .left) rfl hl₁
  have h₂ : (system (Controller H) cfg).Steps DeliversNear n₁ n₂ := steps_call (s := .left) rfl hl₂
  have h₃ : (system (Controller H) cfg).Steps DeliversNear n₂ n₃ :=
    steps_deliver (s := .left) hi.kept (near_ack hs₂ ((hun₂.trans hun₁).trans hi.unread) rfl rfl) hl₃
  have h₄ : (system (Controller H) cfg).Steps DeliversNear n₃ n₄ := steps_call (s := .left) rfl hl₄
  have h₅ : (system (Controller H) cfg).Steps DeliversNear n₄ n₅ := by
    refine steps_deliver (s := .right) (p := p) ?_ (near_byte hi.receiver hi.length hp) hr₁
    show p ∈ l₄.sent
    rw [hsent₄]
    exact List.mem_append_right _ (List.mem_singleton.2 rfl)
  have h₆ : (system (Controller H) cfg).Steps DeliversNear n₅ n₆ := steps_call (s := .right) rfl hr₂
  refine ⟨n₆, ((((h₁.trans h₂).trans h₃).trans h₄).trans h₅).trans h₆, congrArg Settings.state hs₄.settings,
    congrArg Settings.state ht₂.settings, ?_⟩
  show ¬r₂.returned <+: l₄.accepted
  rw [hread₂, hread₁, hacc₄, hacc₃, hacc₂, hacc₁, hi.stream, List.append_assoc, List.prefix_append_right_inj]
  decide

/-! ### The opening -/

def oneByteConfig : ConnConfig where
  mss := 1
  enableSACK := true
  congestionControl := .newreno
  sendBufSize := 1000
  recvBufSize := 1000

/-- The handshake and two bytes, of which the second arrives first. -/
def twoBytes : List Action :=
  let opts : List TcpOption := [mssOption 1, wscaleOption 0, sackPermOption]
  let syn : Segment := { srcPort := 0, dstPort := 0, seq := 100, flags := flagSYN, window := 1000, options := opts }
  let synAck : Segment :=
    { srcPort := 0, dstPort := 0, seq := 700, ack := 101, flags := flagSYN ||| flagACK, window := 1000, options := opts }
  let ack : Segment := { srcPort := 0, dstPort := 0, seq := 101, ack := 701, flags := flagACK, window := 1000 }
  let first : Segment := { ack with flags := flagACK ||| flagPSH, payload := [10] }
  let second : Segment := { first with seq := 102, payload := [11] }
  let both : Segment := { srcPort := 0, dstPort := 0, seq := 701, ack := 103, flags := flagACK, window := 998 }
  [.call .left (.connect 0 100), .accept .right 0 700 ⟨syn, 0, 1000⟩, .deliver .left 0 ⟨synAck, 0, 1000⟩,
    .deliver .right 0 ⟨ack, 1, 1000⟩, .call .left (.write 0 [10, 11]), .deliver .right 0 ⟨second, 2, 1000⟩,
    .deliver .right 0 ⟨first, 1, 1000⟩, .call .right (.read 0 2), .deliver .left 0 ⟨both, 1, 998⟩]

theorem idle_twoBytes : ((fresh (fun _ => oneByteConfig) 0 : Network SmallController).run twoBytes).Idle 3 blockAck where
  sender := ⟨by decide +kernel, by decide +kernel, by decide +kernel, by decide +kernel, by decide +kernel⟩
  receiver := ⟨by decide +kernel, by decide +kernel, by decide +kernel, by decide +kernel⟩
  cc := by decide +kernel
  retries := by decide +kernel
  stream := by decide +kernel
  length := by decide +kernel
  unread := by decide +kernel
  kept := by decide +kernel

end Network

end Libp2px.Vtcp
