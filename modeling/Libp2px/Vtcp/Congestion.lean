import Libp2px.Vtcp.Segment

/-!
# Congestion control and the RTO calculator

`vtcp/congestion.go` and `vtcp/rto.go`.  A connection talks to its controller through the interface
`CongestionController` only, so the connection is generic in the controller.  `Controller` is what
`newCongestionController` returns; the floating-point parts of HighSpeed are the parameter `HSMath`.
-/

namespace Libp2px.Vtcp

/-- `ConnConfig.CongestionControl`: `"newreno"`, or anything else, which selects HighSpeed. -/
inductive CCName
  | newreno
  | highspeed
  deriving DecidableEq, Repr

/-- `CongestionController`, with `newCongestionController` as `new`. -/
class CongestionController (σ : Type) where
  new : CCName → BitVec 32 → σ
  onACK : σ → BitVec 32 → σ
  onDupACK : σ → σ × Bool
  onTimeout : σ → σ
  onFastRetransmit : σ → BitVec 32 → BitVec 32 → σ
  exitRecovery : σ → σ
  sendWindow : σ → BitVec 32
  inRecovery : σ → Bool
  recoverySeq : σ → BitVec 32

def max32 (a b : BitVec 32) : BitVec 32 := if a < b then b else a

/-- The initial congestion window of both controllers: `min(10*MSS, max(2*MSS, 14600))`. -/
def initialCWND (mss : BitVec 32) : BitVec 32 :=
  if max32 (2 * mss) 14600 < 10 * mss then max32 (2 * mss) 14600 else 10 * mss

/-- `NewReno`; `HighSpeed` has the same fields. -/
structure NewReno where
  cwnd : BitVec 32
  ssthresh : BitVec 32
  mss : BitVec 32
  dupAckCnt : Nat := 0
  recovery : Bool := false
  recoverySeq : BitVec 32 := 0
  deriving DecidableEq, Repr

namespace NewReno

def new (mss : BitVec 32) : NewReno where
  cwnd := initialCWND mss
  ssthresh := BitVec.allOnes 32
  mss := mss

/-- `OnACK` with `inc` the increase in congestion avoidance, where it is at least one byte. -/
def onACKWith (inc : BitVec 32) (nr : NewReno) (bytesAcked : BitVec 32) : NewReno :=
  if nr.cwnd < nr.ssthresh then
    { nr with dupAckCnt := 0, cwnd := nr.cwnd + (if bytesAcked > nr.mss then nr.mss else bytesAcked) }
  else { nr with dupAckCnt := 0, cwnd := nr.cwnd + (if inc = 0 then 1 else inc) }

def onACK (nr : NewReno) (bytesAcked : BitVec 32) : NewReno := onACKWith (nr.mss * nr.mss / nr.cwnd) nr bytesAcked

def onDupACK (nr : NewReno) : NewReno × Bool :=
  let nr := { nr with dupAckCnt := nr.dupAckCnt + 1 }
  if nr.dupAckCnt = 3 ∧ !nr.recovery then (nr, true)
  else if nr.recovery ∧ nr.dupAckCnt > 3 then ({ nr with cwnd := nr.cwnd + nr.mss }, false)
  else (nr, false)

/-- `OnFastRetransmit`, from the new slow start threshold on. -/
def enterRecovery (nr : NewReno) (ssthresh sndNxt : BitVec 32) : NewReno :=
  { nr with ssthresh := ssthresh, cwnd := ssthresh + 3 * nr.mss, recovery := true, recoverySeq := sndNxt }

def onFastRetransmit (nr : NewReno) (flightSize sndNxt : BitVec 32) : NewReno :=
  nr.enterRecovery (max32 (flightSize / 2) (2 * nr.mss)) sndNxt

def exitRecovery (nr : NewReno) : NewReno :=
  { nr with cwnd := nr.ssthresh, recovery := false, dupAckCnt := 0, recoverySeq := 0 }

/-- `OnTimeout`, from the new slow start threshold on. -/
def restart (nr : NewReno) (ssthresh : BitVec 32) : NewReno :=
  { nr with ssthresh := ssthresh, cwnd := nr.mss, recovery := false, dupAckCnt := 0, recoverySeq := 0 }

def onTimeout (nr : NewReno) : NewReno := nr.restart (max32 (nr.cwnd / 2) (2 * nr.mss))

end NewReno

/-- The floating-point results of HighSpeed: `increase` is `uint32(a * mss * mss / cwnd)` and `decrease` is
`uint32(cwnd * (1 - b))`, with `a` and `b` from `hstcpA` and `hstcpB`. -/
structure HSMath where
  increase : BitVec 32 → BitVec 32 → BitVec 32
  decrease : BitVec 32 → BitVec 32 → BitVec 32

/-- The values for windows of at most 38 segments, where `a = 1` and `b = 1/2`. -/
def HSMath.low : HSMath where
  increase cwnd mss := mss * mss / cwnd
  decrease cwnd _ := cwnd / 2

structure HighSpeed (H : HSMath) extends NewReno
  deriving DecidableEq, Repr

namespace HighSpeed

variable {H : HSMath}

def new (mss : BitVec 32) : HighSpeed H := ⟨NewReno.new mss⟩

def onACK (hs : HighSpeed H) (bytesAcked : BitVec 32) : HighSpeed H :=
  ⟨hs.toNewReno.onACKWith (H.increase hs.cwnd hs.mss) bytesAcked⟩

def onDupACK (hs : HighSpeed H) : HighSpeed H × Bool :=
  let r := hs.toNewReno.onDupACK
  (⟨r.1⟩, r.2)

/-- The slow start threshold after a loss: `(1 - b(w)) * cwnd`, at least `2*MSS`. -/
def lossThresh (hs : HighSpeed H) : BitVec 32 :=
  if H.decrease hs.cwnd hs.mss < 2 * hs.mss then 2 * hs.mss else H.decrease hs.cwnd hs.mss

def onFastRetransmit (hs : HighSpeed H) (_flightSize sndNxt : BitVec 32) : HighSpeed H :=
  ⟨hs.toNewReno.enterRecovery hs.lossThresh sndNxt⟩

def exitRecovery (hs : HighSpeed H) : HighSpeed H := ⟨hs.toNewReno.exitRecovery⟩

def onTimeout (hs : HighSpeed H) : HighSpeed H := ⟨hs.toNewReno.restart hs.lossThresh⟩

end HighSpeed

inductive Controller (H : HSMath)
  | newReno (nr : NewReno)
  | highSpeed (hs : HighSpeed H)
  deriving DecidableEq, Repr

namespace Controller

variable {H : HSMath}

def base : Controller H → NewReno
  | newReno nr => nr
  | highSpeed hs => hs.toNewReno

instance : CongestionController (Controller H) where
  new
    | .newreno, mss => newReno (NewReno.new mss)
    | .highspeed, mss => highSpeed (HighSpeed.new mss)
  onACK
    | newReno nr, n => newReno (nr.onACK n)
    | highSpeed hs, n => highSpeed (hs.onACK n)
  onDupACK
    | newReno nr => (newReno nr.onDupACK.1, nr.onDupACK.2)
    | highSpeed hs => (highSpeed hs.onDupACK.1, hs.onDupACK.2)
  onTimeout
    | newReno nr => newReno nr.onTimeout
    | highSpeed hs => highSpeed hs.onTimeout
  onFastRetransmit
    | newReno nr, flight, nxt => newReno (nr.onFastRetransmit flight nxt)
    | highSpeed hs, flight, nxt => highSpeed (hs.onFastRetransmit flight nxt)
  exitRecovery
    | newReno nr => newReno nr.exitRecovery
    | highSpeed hs => highSpeed hs.exitRecovery
  sendWindow c := c.base.cwnd
  inRecovery c := c.base.recovery
  recoverySeq c := c.base.recoverySeq

end Controller

/-! ### The RTO calculator -/

/-- `RTOCalculator`; `timing` holds the send time and sequence number of the segment being timed. -/
structure RTOCalculator where
  srtt : Int := 0
  rttvar : Int := 0
  rto : Int := defaultRTO
  measured : Bool := false
  timing : Option (Int × BitVec 32) := none
  deriving DecidableEq, Repr

namespace RTOCalculator

def clamp (r : RTOCalculator) : RTOCalculator :=
  let r := if r.rto < minRTO then { r with rto := minRTO } else r
  if r.rto > maxRTO then { r with rto := maxRTO } else r

/-- `Sample`; the divisions of durations truncate toward zero. -/
def sample (r : RTOCalculator) (rtt : Int) : RTOCalculator :=
  let r :=
    if !r.measured then { r with srtt := rtt, rttvar := rtt.tdiv 2, measured := true }
    else
      let diff := if r.srtt - rtt < 0 then -(r.srtt - rtt) else r.srtt - rtt
      { r with rttvar := (3 * r.rttvar + diff).tdiv 4, srtt := (7 * r.srtt + rtt).tdiv 8 }
  clamp { r with rto := r.srtt + 4 * r.rttvar }

def backoff (r : RTOCalculator) : RTOCalculator := clamp { r with rto := r.rto * 2 }

def startTiming (r : RTOCalculator) (now : Int) (seq : BitVec 32) : RTOCalculator :=
  if r.timing.isSome then r else { r with timing := some (now, seq) }

def ackReceived (r : RTOCalculator) (now : Int) (ack : BitVec 32) : RTOCalculator :=
  match r.timing with
  | none => r
  | some (sent, seq) => if seqAfter ack seq then { r.sample (now - sent) with timing := none } else r

def invalidateTiming (r : RTOCalculator) : RTOCalculator := { r with timing := none }

end RTOCalculator

end Libp2px.Vtcp
