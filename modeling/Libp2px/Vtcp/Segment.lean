import Libp2px.Vtcp.SeqSpace

/-!
# States, options and segments

The data model of `vtcp/doc.go`, `vtcp/options.go` and `vtcp/segment.go`: the connection states, the flag bits, the
TCP options with their big-endian payloads, and segments.  The segments a connection queues and receives are the
structured ones; the wire codec that carries them is not part of this file.
-/

namespace Libp2px.Vtcp

abbrev Byte := BitVec 8

inductive State
  | closed
  | listen
  | synSent
  | synReceived
  | established
  | finWait1
  | finWait2
  | closeWait
  | closing
  | lastAck
  | timeWait
  deriving DecidableEq, Repr

def State.synchronized (st : State) : Bool := !(st == .closed || st == .listen || st == .synSent)

def flagFIN : BitVec 8 := 0x01
def flagSYN : BitVec 8 := 0x02
def flagRST : BitVec 8 := 0x04
def flagPSH : BitVec 8 := 0x08
def flagACK : BitVec 8 := 0x10

def defaultMSS : Nat := 1460
def defaultWindowSize : BitVec 32 := 65535
def defaultSendBuf : Nat := 2 ^ 20
def defaultRecvBuf : Nat := 2 ^ 20

/-- Durations and clock readings are in nanoseconds. -/
def second : Int := 1000000000
def defaultRTO : Int := second
def minRTO : Int := 200000000
def maxRTO : Int := 60 * second
def maxRetries : Nat := 8
def timeWaitDuration : Int := 2 * second
def defaultKeepaliveIdle : Int := 300 * second
def defaultKeepaliveInterval : Int := 15 * second
def defaultKeepaliveCount : Int := 3

/-! ### Big-endian integers -/

def putUint16 (x : BitVec 16) : List Byte := [BitVec.ofNat 8 (x.toNat / 256), BitVec.ofNat 8 x.toNat]

/-- `binary.BigEndian.Uint16` of the first two bytes. -/
def uint16 (l : List Byte) : BitVec 16 := BitVec.ofNat 16 ((l.getD 0 0).toNat * 256 + (l.getD 1 0).toNat)

def putUint32 (x : BitVec 32) : List Byte :=
  [BitVec.ofNat 8 (x.toNat / 16777216), BitVec.ofNat 8 (x.toNat / 65536), BitVec.ofNat 8 (x.toNat / 256),
    BitVec.ofNat 8 x.toNat]

/-- `binary.BigEndian.Uint32` of the first four bytes. -/
def uint32 (l : List Byte) : BitVec 32 :=
  BitVec.ofNat 32 ((l.getD 0 0).toNat * 16777216 + (l.getD 1 0).toNat * 65536 + (l.getD 2 0).toNat * 256 +
    (l.getD 3 0).toNat)

/-! ### Options -/

def optEnd : Byte := 0
def optNOP : Byte := 1
def optMSS : Byte := 2
def optWScale : Byte := 3
def optSACKPerm : Byte := 4
def optSACK : Byte := 5
def optTimestamp : Byte := 8

/-- `Option`: a parsed TCP option, `data` without the kind and length bytes. -/
structure TcpOption where
  kind : Byte
  data : List Byte := []
  deriving DecidableEq, Repr

/-- `SACKBlock`: left edge inclusive, right edge exclusive. -/
structure SACKBlock where
  left : BitVec 32
  right : BitVec 32
  deriving DecidableEq, Repr

def mssOption (mss : BitVec 16) : TcpOption := ⟨optMSS, putUint16 mss⟩

def wscaleOption (shift : Byte) : TcpOption := ⟨optWScale, [shift]⟩

def sackPermOption : TcpOption := ⟨optSACKPerm, []⟩

def sackOption (blocks : List SACKBlock) : TcpOption :=
  ⟨optSACK, blocks.flatMap fun b => putUint32 b.left ++ putUint32 b.right⟩

def timestampOption (tsVal tsEcr : BitVec 32) : TcpOption := ⟨optTimestamp, putUint32 tsVal ++ putUint32 tsEcr⟩

/-- `GetMSS`: the first MSS option's value, `0` if there is none. -/
def getMSS (opts : List TcpOption) : BitVec 16 :=
  match opts.find? fun o => o.kind == optMSS && o.data.length == 2 with
  | some o => uint16 o.data
  | none => 0

/-- `GetWScale`: the first window scale, `none` (the source's `-1`) if there is none. -/
def getWScale (opts : List TcpOption) : Option Byte :=
  match opts.find? fun o => o.kind == optWScale && o.data.length == 1 with
  | some o => some (o.data.getD 0 0)
  | none => none

/-- `GetTimestamp`: TSval and TSecr of the first timestamps option. -/
def getTimestamp (opts : List TcpOption) : Option (BitVec 32 × BitVec 32) :=
  match opts.find? fun o => o.kind == optTimestamp && o.data.length == 8 with
  | some o => some (uint32 o.data, uint32 (o.data.drop 4))
  | none => none

def decodeSACKBlocks : Nat → List Byte → List SACKBlock
  | 0, _ => []
  | n + 1, data => ⟨uint32 data, uint32 (data.drop 4)⟩ :: decodeSACKBlocks n (data.drop 8)

/-- `GetSACKBlocks`: the blocks of the first SACK option that holds at least one. -/
def getSACKBlocks (opts : List TcpOption) : List SACKBlock :=
  match opts.find? fun o => o.kind == optSACK && decide (8 ≤ o.data.length) with
  | some o => decodeSACKBlocks (o.data.length / 8) o.data
  | none => []

def hasSACKPerm (opts : List TcpOption) : Bool := opts.any fun o => o.kind == optSACKPerm

/-! ### Segments -/

structure Segment where
  srcPort : BitVec 16
  dstPort : BitVec 16
  seq : BitVec 32
  ack : BitVec 32 := 0
  flags : BitVec 8
  window : BitVec 16 := 0
  checksum : BitVec 16 := 0
  urgent : BitVec 16 := 0
  options : List TcpOption := []
  payload : List Byte := []
  deriving DecidableEq, Repr

namespace Segment

def hasFlag (s : Segment) (flag : BitVec 8) : Bool := s.flags &&& flag != 0

def dataLen (s : Segment) : BitVec 32 := BitVec.ofNat 32 s.payload.length

/-- `SegLen`: the payload length, plus one for SYN, plus one for FIN. -/
def segLen (s : Segment) : BitVec 32 :=
  let n := BitVec.ofNat 32 s.payload.length
  let n := if s.hasFlag flagSYN then n + 1 else n
  if s.hasFlag flagFIN then n + 1 else n

def payloadFreeACK (seg : Segment) : Bool := seg.hasFlag flagACK && decide (seg.payload = [])

/-- An ACK without payload and any other of the flags that count. -/
def pureACK (seg : Segment) : Bool :=
  seg.payloadFreeACK && !seg.hasFlag flagSYN && !seg.hasFlag flagFIN && !seg.hasFlag flagRST

end Segment

end Libp2px.Vtcp
