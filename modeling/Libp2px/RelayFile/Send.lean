import Libp2px.Lib.Chunks
import Libp2px.RelayFile.Session

/-!
# Sending a file

`SendFile` of `p2put/relayfile.go`, cut at every frame that it writes or reads.  The file does not change, and a read of
it returns a full chunk except at the end.  The replies are those of the receiver, with their JSON decoded; a read that
fails, in whatever way, has no reply.
-/

namespace Libp2px.RelayFile

open Chunks

/-- What is sent: the base name of the file, its bytes, and the compression that was chosen. -/
structure Source where
  name : String
  data : List Byte
  compression : Compression

namespace Source

def totalChunks (src : Source) : Nat := count chunkSize src.data.length

def checksum (env : Env) (src : Source) : Checksum := .sha256 (env.sha256 src.data)

def init (env : Env) (src : Source) (offset : Int) : Init :=
  { name := src.name, size := src.data.length, chunkSize := chunkSize, totalChunks := src.totalChunks
    checksum := src.checksum env, offset := offset, compression := src.compression.name }

end Source

structure Payloads (env : Env) (src : Source) where
  init : Int → List Byte
  fin : List Byte
  cancel : String → List Byte
  init_read : ∀ offset, -2 ^ 63 ≤ offset → offset < 2 ^ 63 → env.json.init (init offset) = some (src.init env offset)
  fin_read : env.json.finChecksum fin = src.checksum env

inductive SendStage
  /-- before `NewStream` -/
  | connect
  /-- at `initRetry` -/
  | init
  /-- before ACCEPT is read -/
  | accept
  /-- at the head of the outer loop -/
  | top
  /-- at the head of the inner loop -/
  | batch (batchEnd : Int)
  /-- before ACK is read -/
  | ack
  /-- before FIN is written -/
  | fin
  /-- before DONE is read -/
  | done
  /-- before the deferred `sessions.Delete`; `ok`: the error is nil -/
  | returning (ok : Bool)
  | returned (ok : Bool)
  deriving DecidableEq, Repr

/-- `SendFile`; `state` and `registered` are seen through `sessions`; `cursor` is that of the file. -/
structure Sender where
  offset : Int := 0
  seq : Int := 0
  cursor : Nat := 0
  stage : SendStage := .connect
  state : SessionState := .init
  registered : Bool := true
  deriving DecidableEq, Repr

/-- What the read of a chunk and the write of its frame come to. -/
inductive ChunkIO
  | ok
  | readFails
  | writeFails
  deriving DecidableEq, Repr

inductive SendAct
  | connect (ok : Bool)
  | writeInit (written : Bool)
  | readAccept (r : Option Reply)
  | enter (cancelled : Bool)
  | chunk (io : ChunkIO)
  | readAck (r : Option Reply)
  | writeFin (written : Bool)
  | readDone (r : Option Reply)
  | delete
  deriving DecidableEq, Repr

namespace Sender

/-- `file.Seek` to a chunk; a seek to a negative offset does nothing. -/
def seek (cursor : Nat) (seq : Int) : Nat :=
  let offset := wrap64 (seq * chunkSize)
  if offset < 0 then cursor else offset.toNat

/-- `file.Read` into a buffer of `chunkSize` bytes. -/
def fileRead (src : Source) (cursor : Nat) : List Byte := (src.data.drop cursor).take chunkSize

variable {env : Env} {src : Source} (pay : Payloads env src)

/-- The body of the inner loop; it ends when the batch is complete or the file is. -/
def sendChunk (s : Sender) (batchEnd : Int) (io : ChunkIO) : Sender × List Frame :=
  if s.seq < batchEnd then
    if io = .readFails then ({ s with stage := .returning false }, [⟨frameTypeCancel, pay.cancel "read error"⟩])
    else
      let data := fileRead src s.cursor
      if data = [] then ({ s with stage := .ack }, [])
      else if io = .writeFails then ({ s with stage := .returning false }, [])
      else
        ({ s with seq := wrap64 (s.seq + 1), cursor := s.cursor + data.length },
          [⟨frameTypeData, packDataFrame env.zstd s.seq data src.compression⟩])
  else ({ s with stage := .ack }, [])

/-- The outer loop: cancelled, the next batch, or its end. -/
def enter (s : Sender) (cancelled : Bool) : Sender × List Frame :=
  if s.seq < src.totalChunks then
    if cancelled then ({ s with stage := .returning false }, [⟨frameTypeCancel, pay.cancel "cancelled"⟩])
    else
      let batchEnd := wrap64 (s.seq + ackBatch)
      ({ s with stage := .batch (if batchEnd > src.totalChunks then src.totalChunks else batchEnd) }, [])
  else ({ s with stage := .fin }, [])

/-- A step of `SendFile` and the frames it writes. `NewStream` comes twice in the source, first with `seq` zero. -/
def step (s : Sender) (a : SendAct) : Option (Sender × List Frame) :=
  match s.stage, a with
  | .connect, .connect true => some ({ s with offset := s.seq, stage := .init }, [])
  | .connect, .connect false => some ({ s with stage := .returning false }, [])
  | .init, .writeInit true => some ({ s with stage := .accept }, [⟨frameTypeInit, pay.init s.offset⟩])
  | .init, .writeInit false => some ({ s with stage := .returning false }, [])
  | .accept, .readAccept (some (.accept k)) =>
    some ({ s with offset := k, seq := k, cursor := seek s.cursor k, state := .transfer, stage := .top }, [])
  | .accept, .readAccept _ => some ({ s with stage := .returning false }, [])
  | .top, .enter cancelled => some (enter pay s cancelled)
  | .batch batchEnd, .chunk io => some (sendChunk pay s batchEnd io)
  | .ack, .readAck (some (.ack cs)) =>
    some ({ s with seq := wrap64 (cs + 1), cursor := seek s.cursor (wrap64 (cs + 1)), stage := .top }, [])
  | .ack, .readAck _ => some ({ s with stage := .connect }, [])
  | .fin, .writeFin true => some ({ s with stage := .done }, [⟨frameTypeFin, pay.fin⟩])
  | .fin, .writeFin false => some ({ s with stage := .returning false }, [])
  | .done, .readDone (some .done) => some ({ s with state := .done, stage := .returning true }, [])
  | .done, .readDone _ => some ({ s with stage := .returning false }, [])
  | .returning ok, .delete => some ({ s with stage := .returned ok, registered := false }, [])
  | _, _ => none

/-- What a step of `SendFile` can be. -/
inductive Stepped (s : Sender) : SendAct → Sender × List Frame → Prop
  | connected (h : s.stage = .connect) : Stepped s (.connect true) ({ s with offset := s.seq, stage := .init }, [])
  | init (h : s.stage = .init) :
      Stepped s (.writeInit true) ({ s with stage := .accept }, [⟨frameTypeInit, pay.init s.offset⟩])
  | accepted (k : Int) (h : s.stage = .accept) : Stepped s (.readAccept (some (.accept k)))
      ({ s with offset := k, seq := k, cursor := seek s.cursor k, state := .transfer, stage := .top }, [])
  | entered {cancelled r} (h : s.stage = .top) (hr : enter pay s cancelled = r) : Stepped s (.enter cancelled) r
  | chunk {batchEnd io r} (h : s.stage = .batch batchEnd) (hr : sendChunk pay s batchEnd io = r) : Stepped s (.chunk io) r
  | acked (cs : Int) (h : s.stage = .ack) : Stepped s (.readAck (some (.ack cs)))
      ({ s with seq := wrap64 (cs + 1), cursor := seek s.cursor (wrap64 (cs + 1)), stage := .top }, [])
  | lost {x} (h : s.stage = .ack) : Stepped s (.readAck x) ({ s with stage := .connect }, [])
  | fin (h : s.stage = .fin) : Stepped s (.writeFin true) ({ s with stage := .done }, [⟨frameTypeFin, pay.fin⟩])
  | done (h : s.stage = .done) :
      Stepped s (.readDone (some .done)) ({ s with state := .done, stage := .returning true }, [])
  | deleted {ok} (h : s.stage = .returning ok) :
      Stepped s .delete ({ s with stage := .returned ok, registered := false }, [])
  -- `SendFile` returns an error
  | notConnected (h : s.stage = .connect) : Stepped s (.connect false) ({ s with stage := .returning false }, [])
  | notInit (h : s.stage = .init) : Stepped s (.writeInit false) ({ s with stage := .returning false }, [])
  | notAccepted {x} (h : s.stage = .accept) : Stepped s (.readAccept x) ({ s with stage := .returning false }, [])
  | notFin (h : s.stage = .fin) : Stepped s (.writeFin false) ({ s with stage := .returning false }, [])
  | notDone {x} (h : s.stage = .done) : Stepped s (.readDone x) ({ s with stage := .returning false }, [])

variable {pay} {s : Sender}

theorem stepped {a : SendAct} {r : Sender × List Frame} (h : step pay s a = some r) : Stepped pay s a r := by
  unfold step at h
  split at h
  case h_7 => exact .entered (by assumption) (Option.some.inj h)
  case h_8 => exact .chunk (by assumption) (Option.some.inj h)
  case h_6 => exact Option.some.inj h ▸ .notAccepted (by assumption)
  case h_10 => exact Option.some.inj h ▸ .lost (by assumption)
  case h_14 => exact Option.some.inj h ▸ .notDone (by assumption)
  case h_16 => cases h
  all_goals
    cases h
    constructor
    assumption

end Sender

end Libp2px.RelayFile
