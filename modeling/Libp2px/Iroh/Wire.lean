import Libp2px.Lib.BigEndian

/-!
# Frames through an iroh relay

How the bytes of a stream travel in `p2put/irohrelay.go`: `IrohRelayStream.Write` cuts them at `maxDatagramPayload`
and puts the stream's id, as eight bytes with the lowest first, and a flag in front of each piece; `sendDatagram` puts
the receiver's key in front of that; the relay replaces it by the sender's key; and `readLoop` and
`handleRecvDatagram` take both headers off.
-/

namespace Libp2px.Iroh

abbrev Byte := BitVec 8

def maxDatagramPayload : Nat := 64000

def frameClientToRelayDatagram : Byte := 4

def frameRelayToClientDatagram : Byte := 6

def frameRelayToClientDatagramBatch : Byte := 7

def flagDATA : Byte := 0

def flagCLOSE : Byte := 1

def flagRESET : Byte := 2

structure Pubkey where
  bytes : List Byte
  length : bytes.length = 32
  deriving DecidableEq

structure Frame where
  sid : Nat
  flags : Byte
  data : List Byte
  deriving DecidableEq, Repr

/-! ### The headers -/

/-- `binary.LittleEndian` for an `uint64`. -/
def putUint64 (n : Nat) : List Byte := (BigEndian.encode 8 n).reverse

def uint64 (l : List Byte) : Nat := BigEndian.decode l.reverse

/-- A frame as `Write`, `Close`, `Reset` and `sendRESET` build it. -/
def Frame.bytes (f : Frame) : List Byte := putUint64 f.sid ++ [f.flags] ++ f.data

def sendDatagram (remotePub : Pubkey) (payload : List Byte) : List Byte :=
  [frameClientToRelayDatagram] ++ remotePub.bytes ++ [0] ++ payload

/-- The relay passes the datagram of the client `src` on, with the key of its source in the place of that of its
destination. -/
def relay (src : Pubkey) : List Byte → List Byte
  | [] => []
  | _ :: body => [frameRelayToClientDatagram] ++ src.bytes ++ body.drop 32

/-- `handleRecvDatagram`: the source and the frame of the body of a datagram. -/
def handleRecvDatagram (body : List Byte) : Option (List Byte × Frame) :=
  if body.length < 33 then none
  else
    let src := body.take 32
    let payload := body.drop 33
    if payload.length < 9 then none
    else some (src, { sid := uint64 (payload.take 8), flags := payload.getD 8 0, data := payload.drop 9 })

/-- The part of `readLoop` that takes datagrams. -/
def readDatagram : List Byte → Option (List Byte × Frame)
  | [] => none
  | frameType :: body =>
    if frameType = frameRelayToClientDatagram ∨ frameType = frameRelayToClientDatagramBatch then
      handleRecvDatagram body
    else none

theorem uint64_putUint64 {n : Nat} (h : n < 2 ^ 64) : uint64 (putUint64 n) = n := by
  rw [uint64, putUint64, List.reverse_reverse]
  exact BigEndian.decode_encode_of_lt h

theorem length_putUint64 (n : Nat) : (putUint64 n).length = 8 := by
  rw [putUint64, List.length_reverse, BigEndian.length_encode]

theorem readDatagram_relay (src dst : Pubkey) {f : Frame} (h : f.sid < 2 ^ 64) :
    readDatagram (relay src (sendDatagram dst f.bytes)) = some (src.bytes, f) := by
  obtain ⟨sid, flags, data⟩ := f
  have hsid := length_putUint64 sid
  have hbody : relay src (sendDatagram dst (Frame.bytes ⟨sid, flags, data⟩)) =
      frameRelayToClientDatagram :: (src.bytes ++ ([0] ++ (putUint64 sid ++ ([flags] ++ data)))) := by
    simp [relay, sendDatagram, Frame.bytes, List.drop_left' dst.length]
  have hpayload : (src.bytes ++ ([0] ++ (putUint64 sid ++ ([flags] ++ data)))).drop 33 =
      putUint64 sid ++ ([flags] ++ data) := by
    rw [← List.append_assoc, List.drop_left' (by simp [src.length])]
  have hsrc : (src.bytes ++ ([0] ++ (putUint64 sid ++ ([flags] ++ data)))).take 32 = src.bytes :=
    List.take_left' src.length
  rw [hbody, readDatagram, if_pos (.inl rfl), handleRecvDatagram, if_neg (by simp [src.length]; omega)]
  simp only [hpayload, hsrc]
  rw [if_neg (by simp [hsid]; omega), List.take_left' hsid, uint64_putUint64 h]
  have hflags : (putUint64 sid ++ ([flags] ++ data)).getD 8 0 = flags := by
    rw [List.getD_eq_getElem?_getD, List.getElem?_append_right (by omega), hsid]
    rfl
  have hdata : (putUint64 sid ++ ([flags] ++ data)).drop 9 = data := by
    rw [← List.append_assoc, List.drop_left' (by simp [hsid])]
  rw [hflags, hdata]

/-! ### The pieces of a `Write` -/

def pieces (b : List Byte) : List (List Byte) :=
  if b = [] then [] else b.take maxDatagramPayload :: pieces (b.drop maxDatagramPayload)
termination_by b.length
decreasing_by
  rename_i hne
  have := List.length_pos_iff.2 hne
  simp only [List.length_drop, maxDatagramPayload]
  omega

def writeFrames (sid : Nat) (b : List Byte) : List Frame := (pieces b).map fun chunk => ⟨sid, flagDATA, chunk⟩

theorem pieces_nil : pieces [] = [] := by
  rw [pieces, if_pos rfl]

theorem pieces_of_ne_nil {b : List Byte} (h : b ≠ []) :
    pieces b = b.take maxDatagramPayload :: pieces (b.drop maxDatagramPayload) := by
  rw [pieces, if_neg h]

theorem pieces_spec (b : List Byte) : (pieces b).flatten = b ∧ ∀ chunk ∈ pieces b, chunk ≠ [] := by
  induction hn : b.length using Nat.strong_induction_on generalizing b with
  | _ n ih =>
    by_cases hb : b = []
    · subst hb
      rw [pieces_nil]
      exact ⟨rfl, fun _ h => by cases h⟩
    · have hlt : (b.drop maxDatagramPayload).length < n := by
        have := List.length_pos_iff.2 hb
        simp only [List.length_drop, maxDatagramPayload]
        omega
      obtain ⟨hflat, hne⟩ := ih _ hlt (b.drop maxDatagramPayload) rfl
      rw [pieces_of_ne_nil hb]
      refine ⟨by rw [List.flatten_cons, hflat, List.take_append_drop], ?_⟩
      intro chunk hchunk
      rcases List.mem_cons.1 hchunk with rfl | htail
      · simp [maxDatagramPayload, hb]
      · exact hne chunk htail

end Libp2px.Iroh
