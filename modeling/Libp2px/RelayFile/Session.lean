import Libp2px.Lib.Files
import Libp2px.RelayFile.Frame
import Libp2px.RelayFile.Bitmap

/-!
# Receiving sessions

`HandleFileStream`, `receiveLoop`, `cleanupSession` and `verifyFileHash` of `p2put/relayfile.go`.  A session is cut at
every access to what it shares with others: the file system, its stream, its `state` and the map `sessions`.  The file
`.part` is written through a handle with a cursor, as the source does it.  What the operating system answers is part of
the step that asks it.  The JSON decoder, SHA-256, the zstd library and the paths of the receive directory are
parameters.
-/

namespace Libp2px.RelayFile

abbrev FS := Files.System String Byte

def frameTypeInit : Byte := 0
def frameTypeAccept : Byte := 1
def frameTypeReject : Byte := 2
def frameTypeData : Byte := 3
def frameTypeAck : Byte := 4
def frameTypeFin : Byte := 5
def frameTypeDone : Byte := 6
def frameTypeError : Byte := 7
def frameTypeCancel : Byte := 8

def chunkSize : Nat := 65536
def ackBatch : Nat := 8

/-- The value of an `int` or `int64` after an operation. -/
def wrap64 (x : Int) : Int := x.bmod (2 ^ 64)

/-- The largest allocation of the Go runtime on a 64-bit platform. -/
def maxAlloc : Nat := 2 ^ 48

/-- A checksum: a text that begins with `sha256:`, or another text. -/
inductive Checksum
  | sha256 (hex : String)
  | other (text : String)
  deriving DecidableEq, Repr

structure Init where
  name : String
  size : Int
  chunkSize : Int
  totalChunks : Int
  checksum : Checksum
  offset : Int
  compression : String
  deriving DecidableEq, Repr

/-- The numbers are those of Go's `int` and `int64`. -/
def Init.Fits (i : Init) : Prop :=
  (-2 ^ 63 ≤ i.size ∧ i.size < 2 ^ 63) ∧ (-2 ^ 63 ≤ i.chunkSize ∧ i.chunkSize < 2 ^ 63) ∧
    (-2 ^ 63 ≤ i.totalChunks ∧ i.totalChunks < 2 ^ 63) ∧ (-2 ^ 63 ≤ i.offset ∧ i.offset < 2 ^ 63)

instance (i : Init) : Decidable i.Fits := inferInstanceAs (Decidable (_ ∧ _))

/-- The JSON decoder. The error of a FIN payload is ignored, so there is always a checksum. -/
structure Json where
  init : List Byte → Option Init
  finChecksum : List Byte → Checksum
  init_fits : ∀ p i, init p = some i → i.Fits

/-- The libraries, and the path for a file name, `filepath.Join(saveDir, filepath.Base(name))`. -/
structure Env where
  zstd : Zstd
  json : Json
  sha256 : List Byte → String
  finalPath : String → String

inductive SessionState
  | init
  | transfer
  | done
  | error
  | cancelled
  deriving DecidableEq, Repr

def SessionState.ended : SessionState → Bool
  | done | error | cancelled => true
  | _ => false

inductive Failure
  | unpack (e : UnpackError)
  | write
  | checksumMismatch
  | unknownChecksumFormat
  | open
  | hash
  | hashMismatch (expected got : String)
  | rename
  deriving DecidableEq, Repr

inductive Reply
  | reject
  | accept (offset : Int)
  | ack (cs : Int)
  | done
  | error (why : Failure)
  deriving DecidableEq, Repr

structure Handle where
  inode : String × Nat
  cursor : Nat
  deriving DecidableEq, Repr

inductive Stage
  /-- INIT has been read -/
  | received
  /-- after `os.OpenFile` of `.part`, or without it -/
  | opened (file : Option (String × Nat))
  /-- the file is positioned; before ACCEPT -/
  | ready
  /-- in `receiveLoop`, before `frameRead` -/
  | loop
  /-- FIN was taken and the file closed -/
  | closed
  /-- in `verifyFileHash`, with what has been read -/
  | verifying (file : String × Nat) (got : List Byte)
  | verified
  | renamed
  /-- `state` has been set to done; before DONE -/
  | finished
  /-- before `cleanupSession` -/
  | failed
  /-- before `sessions.Delete` -/
  | unregister
  | returned
  | crashed (p : Panic)
  deriving DecidableEq, Repr

/-- A receiving session; `registered`: it is in `sessions`; `ctxDone`: its context has been cancelled. -/
structure Session where
  init : Init
  peer : String := ""
  stage : Stage := .received
  state : SessionState := .transfer
  registered : Bool := false
  ctxDone : Bool := false
  tmpFile : Option Handle := none
  bitmap : List (BitVec 64) := []
  startSeq : Int := 0
  lastAck : Int := 0
  doneBytes : Int := 0
  deriving DecidableEq, Repr

/-- What the write of a chunk, or of its ACK, comes to: `writeFails n` writes `n` bytes first. -/
inductive DataIO
  | ok
  | writeFails (n : Nat)
  | ackFails
  deriving DecidableEq, Repr

/-- The steps of a session, with what the operating system or the stream answers. -/
inductive Act
  | begin (mkdir openable : Bool)
  | prepare (created : Bool)
  | accept (written : Bool)
  | recv (f : Frame) (io : DataIO)
  | readError
  | openPart
  | hash (n : Nat)
  | hashEnd
  | hashError
  | rename (ok : Bool)
  | finish
  | done (written : Bool)
  | cleanup
  | delete
  deriving DecidableEq, Repr

def Act.fits : Act → Stage → Bool
  | begin _ _, .received | prepare _, .opened _ | accept _, .ready | recv _ _, .loop | readError, .loop
  | openPart, .closed | hash _, .verifying _ _ | hashEnd, .verifying _ _ | hashError, .verifying _ _
  | rename _, .verified | finish, .renamed | done _, .finished | cleanup, .failed | delete, .unregister => true
  | _, _ => false

namespace Session

def savePath (env : Env) (s : Session) : String := env.finalPath s.init.name

def tmpPath (env : Env) (s : Session) : String := s.savePath env ++ ".relayfile.part"

def compression (s : Session) : Compression := if s.init.compression ≠ "zstd" then .none else .zstd

/-- `make([]uint64, (init.TotalChunks+63)/64)`, if there are chunks. -/
def makeBitmap (totalChunks : Int) : Except Panic (List (BitVec 64)) :=
  if totalChunks > 0 then
    let n := (wrap64 (totalChunks + 63)).tdiv 64
    if n < 0 ∨ 8 * n > maxAlloc then .error .makeslice else .ok (List.replicate n.toNat 0)
  else .ok []

/-- The number of chunks in a file of the size, the last one rounded up, and the bitmap that says so. -/
def resume (s : Session) (size : Nat) : Except Panic (List (BitVec 64) × Int) :=
  if s.init.chunkSize = 0 then .error .divideByZero
  else
    let written := (size : Int).tdiv s.init.chunkSize + if (size : Int).tmod s.init.chunkSize ≠ 0 then 1 else 0
    match bitmapSetFirst s.bitmap (min written s.init.totalChunks).toNat with
    | .error p => .error p
    | .ok bitmap => .ok (bitmap, written)

/-- The session with its file where the transfer goes on; a seek to a negative offset does nothing. -/
def position (s : Session) (file : String × Nat) (written : Int) : Except Panic Session :=
  match bitmapMaxContinuous s.bitmap s.init.totalChunks with
  | .error p => .error p
  | .ok resumeOffset =>
    let startSeq := if resumeOffset > written then resumeOffset else written
    let offset := wrap64 (startSeq * s.init.chunkSize)
    .ok { s with tmpFile := some ⟨file, if offset < 0 then 0 else offset.toNat⟩
                 startSeq := startSeq, lastAck := startSeq, stage := .ready }

def crash (s : Session) (p : Panic) : Session := { s with stage := .crashed p }

/-- `HandleFileStream` up to `os.OpenFile`. -/
def begin (env : Env) (fs : FS) (s : Session) (mkdir openable : Bool) : FS × Session × List Reply :=
  if mkdir then
    match makeBitmap s.init.totalChunks with
    | .error p => (fs, s.crash p, [])
    | .ok bitmap =>
      let file := if s.init.offset > 0 ∧ openable then fs.dir (s.tmpPath env) else none
      (fs, { s with bitmap, stage := .opened file }, [])
  else (fs, { s with stage := .returned }, [.reject])

/-- The file that was opened, or `os.Create`. -/
def prepare (env : Env) (fs : FS) (s : Session) (file : Option (String × Nat)) (created : Bool) :
    FS × Session × List Reply :=
  match file with
  | some file =>
    match s.resume (fs.content file).length with
    | .error p => (fs, s.crash p, [])
    | .ok (bitmap, written) =>
      match position { s with bitmap, doneBytes := (fs.content file).length } file written with
      | .error p => (fs, s.crash p, [])
      | .ok s => (fs, s, [])
  | none =>
    if created then
      let r := fs.create (s.tmpPath env)
      match s.position r.2 0 with
      | .error p => (r.1, s.crash p, [])
      | .ok s => (r.1, s, [])
    else (fs, { s with stage := .returned }, [.reject])

/-- The ACCEPT frame, and the registration of the session. -/
def accept (env : Env) (fs : FS) (s : Session) (written : Bool) : FS × Session × List Reply :=
  if written then (fs, { s with stage := .loop, registered := true }, [.accept s.startSeq])
  else (fs.remove (s.tmpPath env), { s with stage := .returned, tmpFile := none }, [])

/-- The end of the DATA case: the ACK, if one is due. -/
def acknowledge (fs : FS) (s : Session) (io : DataIO) : FS × Session × List Reply :=
  match bitmapMaxContinuous s.bitmap s.init.totalChunks with
  | .error p => (fs, s.crash p, [])
  | .ok newSeq =>
    if (wrap64 (newSeq - s.lastAck) ≥ ackBatch ∨ newSeq ≥ s.init.totalChunks) ∧ newSeq > s.lastAck then
      if io = .ackFails then (fs, { s with stage := .failed }, [])
      else (fs, { s with lastAck := newSeq }, [.ack (newSeq - 1)])
    else (fs, s, [])

/-- The DATA case with a chunk that is not in the bitmap: it is written at the cursor. -/
def store (fs : FS) (s : Session) (seq : Int) (data : List Byte) (io : DataIO) : FS × Session × List Reply :=
  match s.tmpFile, io with
  | none, _ => (fs, { s with stage := .failed }, [.error .write])
  | some h, .writeFails n =>
    (fs.write h.inode h.cursor (data.take n),
      { s with tmpFile := some { h with cursor := h.cursor + (data.take n).length }, stage := .failed },
      [.error .write])
  | some h, io =>
    let fs := fs.write h.inode h.cursor data
    let s := { s with tmpFile := some { h with cursor := h.cursor + data.length } }
    match bitmapSet s.bitmap seq with
    | .error p => (fs, s.crash p, [])
    | .ok bitmap => acknowledge fs { s with bitmap, doneBytes := s.doneBytes + data.length } io

def receiveData (env : Env) (fs : FS) (s : Session) (payload : List Byte) (io : DataIO) : FS × Session × List Reply :=
  match unpackDataFrame env.zstd payload s.compression with
  | .error e => (fs, { s with stage := .failed }, [.error (.unpack e)])
  | .ok (seq, data) =>
    match bitmapHas s.bitmap seq with
    | .error p => (fs, s.crash p, [])
    | .ok true => acknowledge fs s io
    | .ok false => store fs s seq data io

/-- One frame of `receiveLoop`; a frame of another type is skipped. -/
def receive (env : Env) (fs : FS) (s : Session) (f : Frame) (io : DataIO) : FS × Session × List Reply :=
  if f.typ = frameTypeCancel ∨ f.typ = frameTypeError then (fs, { s with stage := .failed }, [])
  else if f.typ = frameTypeData then receiveData env fs s f.payload io
  else if f.typ = frameTypeFin then
    if env.json.finChecksum f.payload ≠ s.init.checksum then
      (fs, { s with stage := .failed }, [.error .checksumMismatch])
    else (fs, { s with stage := .closed, tmpFile := none }, [])
  else (fs, s, [])

/-- `verifyFileHash` up to `os.Open`. -/
def openPart (env : Env) (fs : FS) (s : Session) : FS × Session × List Reply :=
  match s.init.checksum with
  | .other _ => (fs, { s with stage := .failed }, [.error .unknownChecksumFormat])
  | .sha256 _ =>
    match fs.dir (s.tmpPath env) with
    | none => (fs, { s with stage := .failed }, [.error .open])
    | some file => (fs, { s with stage := .verifying file [] }, [])

/-- The end of `verifyFileHash`. -/
def compare (env : Env) (fs : FS) (s : Session) (got : List Byte) : FS × Session × List Reply :=
  if s.init.checksum = .sha256 (env.sha256 got) then (fs, { s with stage := .verified }, [])
  else
    let expected := match s.init.checksum with
      | .sha256 hex => hex
      | .other text => text
    (fs, { s with stage := .failed }, [.error (.hashMismatch expected (env.sha256 got))])

/-- `cleanupSession` up to its unlock. -/
def cleanup (env : Env) (fs : FS) (s : Session) : FS × Session × List Reply :=
  if s.state.ended then (fs, { s with stage := .returned }, [])
  else (fs.remove (s.tmpPath env), { s with stage := .unregister, state := .error, tmpFile := none }, [])

/-- One step of a session: the file system, the session, and what it sends. -/
def step (env : Env) (fs : FS) (s : Session) (a : Act) : Option (FS × Session × List Reply) :=
  match s.stage, a with
  | .received, .begin mkdir openable => some (s.begin env fs mkdir openable)
  | .opened file, .prepare created => some (s.prepare env fs file created)
  | .ready, .accept written => some (s.accept env fs written)
  | .loop, .recv f io => some (s.receive env fs f io)
  | .loop, .readError => some (fs, { s with stage := .failed }, [])
  | .closed, .openPart => some (s.openPart env fs)
  | .verifying file got, .hash n =>
    some (fs, { s with stage := .verifying file (got ++ ((fs.content file).drop got.length).take n) }, [])
  | .verifying file got, .hashEnd =>
    if (fs.content file).length ≤ got.length then some (s.compare env fs got) else none
  | .verifying _ _, .hashError => some (fs, { s with stage := .failed }, [.error .hash])
  | .verified, .rename ok =>
    match ok, fs.rename (s.tmpPath env) (s.savePath env) with
    | true, some fs => some (fs, { s with stage := .renamed }, [])
    | _, _ => some (fs, { s with stage := .failed }, [.error .rename])
  | .renamed, .finish => some (fs, { s with stage := .finished, state := .done, doneBytes := s.init.size }, [])
  | .finished, .done written =>
    if written then some (fs, { s with stage := .unregister }, [.done])
    else some (fs, { s with stage := .failed }, [])
  | .failed, .cleanup => some (s.cleanup env fs)
  | .unregister, .delete => some (fs, { s with stage := .returned, registered := false }, [])
  | _, _ => none

/-! ### What a step does -/

variable {env : Env} {fs : FS} {s : Session}

variable {r : FS × Session × List Reply}

/-- What a step does. -/
inductive Stepped (env : Env) (fs : FS) (s : Session) : Act → FS × Session × List Reply → Prop
  | noDir {openable} (h : s.stage = .received) :
      Stepped env fs s (.begin false openable) (fs, { s with stage := .returned }, [.reject])
  | noBitmap {openable p} (h : s.stage = .received) (hb : makeBitmap s.init.totalChunks = .error p) :
      Stepped env fs s (.begin true openable) (fs, s.crash p, [])
  | opened {openable bitmap} (h : s.stage = .received) (hb : makeBitmap s.init.totalChunks = .ok bitmap) :
      Stepped env fs s (.begin true openable) (fs, { s with
        bitmap, stage := .opened (if s.init.offset > 0 ∧ openable then fs.dir (s.tmpPath env) else none) }, [])
  | divides {i created} (h : s.stage = .opened (some i)) (hc : s.init.chunkSize = 0) :
      Stepped env fs s (.prepare created) (fs, s.crash .divideByZero, [])
  | resumed {i created} (bitmap k cursor) (h : s.stage = .opened (some i)) (hc : s.init.chunkSize ≠ 0) :
      Stepped env fs s (.prepare created) (fs, { s with
        bitmap, doneBytes := (fs.content i).length, tmpFile := some ⟨i, cursor⟩, startSeq := k, lastAck := k,
        stage := .ready }, [])
  | created (k cursor) (h : s.stage = .opened none) :
      Stepped env fs s (.prepare true) ((fs.create (s.tmpPath env)).1, { s with
        tmpFile := some ⟨(fs.create (s.tmpPath env)).2, cursor⟩, startSeq := k, lastAck := k, stage := .ready }, [])
  | notCreated (h : s.stage = .opened none) :
      Stepped env fs s (.prepare false) (fs, { s with stage := .returned }, [.reject])
  | accepted (h : s.stage = .ready) :
      Stepped env fs s (.accept true) (fs, { s with stage := .loop, registered := true }, [.accept s.startSeq])
  | notAccepted (h : s.stage = .ready) : Stepped env fs s (.accept false)
      (fs.remove (s.tmpPath env), { s with stage := .returned, tmpFile := none }, [])
  | received {f io} (h : s.stage = .loop) : Stepped env fs s (.recv f io) (s.receive env fs f io)
  | readError (h : s.stage = .loop) : Stepped env fs s .readError (fs, { s with stage := .failed }, [])
  | verifying {file} (h : s.stage = .closed) (hdir : fs.dir (s.tmpPath env) = some file) :
      Stepped env fs s .openPart (fs, { s with stage := .verifying file [] }, [])
  | notOpened (e) (h : s.stage = .closed) : Stepped env fs s .openPart (fs, { s with stage := .failed }, [.error e])
  | hashed {file got n} (h : s.stage = .verifying file got) : Stepped env fs s (.hash n)
      (fs, { s with stage := .verifying file (got ++ ((fs.content file).drop got.length).take n) }, [])
  | hashEnd {file got} (h : s.stage = .verifying file got) (hlen : (fs.content file).length ≤ got.length) :
      Stepped env fs s .hashEnd (s.compare env fs got)
  | hashError {file got} (h : s.stage = .verifying file got) :
      Stepped env fs s .hashError (fs, { s with stage := .failed }, [.error .hash])
  | renamed {fs'} (h : s.stage = .verified) (hren : fs.rename (s.tmpPath env) (s.savePath env) = some fs') :
      Stepped env fs s (.rename true) (fs', { s with stage := .renamed }, [])
  | notRenamed {ok} (h : s.stage = .verified) :
      Stepped env fs s (.rename ok) (fs, { s with stage := .failed }, [.error .rename])
  | finished (h : s.stage = .renamed) : Stepped env fs s .finish
      (fs, { s with stage := .finished, state := .done, doneBytes := s.init.size }, [])
  | done (h : s.stage = .finished) : Stepped env fs s (.done true) (fs, { s with stage := .unregister }, [.done])
  | notDone (h : s.stage = .finished) : Stepped env fs s (.done false) (fs, { s with stage := .failed }, [])
  | ended (h : s.stage = .failed) (he : s.state.ended = true) :
      Stepped env fs s .cleanup (fs, { s with stage := .returned }, [])
  | cleaned (h : s.stage = .failed) (he : s.state.ended = false) : Stepped env fs s .cleanup
      (fs.remove (s.tmpPath env), { s with stage := .unregister, state := .error, tmpFile := none }, [])
  | deleted (h : s.stage = .unregister) :
      Stepped env fs s .delete (fs, { s with stage := .returned, registered := false }, [])

theorem position_eq (s : Session) (file : String × Nat) (written : Int) :
    ∃ k cursor, s.position file written =
      .ok { s with tmpFile := some ⟨file, cursor⟩, startSeq := k, lastAck := k, stage := .ready } := by
  obtain ⟨n, hn⟩ := bitmapMaxContinuous_ok s.bitmap s.init.totalChunks
  unfold position
  rw [hn]
  exact ⟨_, _, rfl⟩

theorem resume_eq (size : Nat) (hc : s.init.chunkSize ≠ 0) : ∃ bitmap written, s.resume size = .ok (bitmap, written) := by
  unfold resume
  rw [if_neg hc]
  obtain ⟨b, hb, -⟩ := bitmapSetFirst_spec s.bitmap (min ((size : Int).tdiv s.init.chunkSize +
    if (size : Int).tmod s.init.chunkSize ≠ 0 then 1 else 0) s.init.totalChunks).toNat
  simp only [hb]
  exact ⟨_, _, rfl⟩

theorem stepped_begin (mkdir openable : Bool) (h : s.stage = .received) :
    Stepped env fs s (.begin mkdir openable) (s.begin env fs mkdir openable) := by
  unfold begin
  cases mkdir with
  | false => exact .noDir h
  | true =>
    rw [if_pos rfl]
    split <;> rename_i hb
    · exact .noBitmap h hb
    · exact .opened h hb

theorem stepped_prepare {file : Option (String × Nat)} (created : Bool) (h : s.stage = .opened file) :
    Stepped env fs s (.prepare created) (s.prepare env fs file created) := by
  unfold prepare
  cases file with
  | some i =>
    by_cases hc : s.init.chunkSize = 0
    · have hres : s.resume (fs.content i).length = .error .divideByZero := if_pos hc
      simp only [hres]
      exact .divides h hc
    · obtain ⟨bitmap, written, hres⟩ := resume_eq (fs.content i).length hc
      obtain ⟨k, cursor, hpos⟩ := position_eq { s with bitmap, doneBytes := (fs.content i).length } i written
      simp only [hres, hpos]
      exact .resumed bitmap k cursor h hc
  | none =>
    cases created with
    | true =>
      obtain ⟨k, cursor, hpos⟩ := position_eq s (fs.create (s.tmpPath env)).2 0
      simp only [hpos, if_true]
      exact .created k cursor h
    | false => exact .notCreated h

theorem stepped_openPart (h : s.stage = .closed) : Stepped env fs s .openPart (s.openPart env fs) := by
  unfold openPart
  split
  · exact .notOpened _ h
  · split
    · exact .notOpened _ h
    · exact .verifying h (by assumption)

theorem stepped {a : Act} (h : s.step env fs a = some r) : Stepped env fs s a r := by
  unfold step at h
  split at h <;> rename_i hst
  case h_1 => exact Option.some.inj h ▸ stepped_begin _ _ hst
  case h_2 => exact Option.some.inj h ▸ stepped_prepare _ hst
  case h_3 written =>
    cases h
    cases written with
    | true => exact .accepted hst
    | false => exact .notAccepted hst
  case h_6 => exact Option.some.inj h ▸ stepped_openPart hst
  case h_8 =>
    split at h
    · exact Option.some.inj h ▸ .hashEnd hst (by assumption)
    · cases h
  case h_10 =>
    split at h
    · exact Option.some.inj h ▸ .renamed hst (by assumption)
    · exact Option.some.inj h ▸ .notRenamed hst
  case h_12 written =>
    cases written with
    | true => exact Option.some.inj h ▸ .done hst
    | false => exact Option.some.inj h ▸ .notDone hst
  case h_13 =>
    cases h
    unfold cleanup
    split <;> rename_i he
    · exact .ended hst he
    · exact .cleaned hst (Bool.eq_false_iff.2 he)
  case h_15 => cases h
  all_goals
    cases h
    constructor
    exact hst

theorem step_prepare {created : Bool} (h : s.step env fs (.prepare created) = some r) :
    ∃ file, s.stage = .opened file ∧ r = s.prepare env fs file created := by
  unfold step at h
  cases hst : s.stage with
  | opened file =>
    rw [hst] at h
    exact ⟨file, rfl, (Option.some.inj h).symm⟩
  | _ =>
    rw [hst] at h
    cases h

theorem acknowledge_eq (fs : FS) (s : Session) (io : DataIO) :
    ∃ newSeq, bitmapMaxContinuous s.bitmap s.init.totalChunks = .ok newSeq ∧
      acknowledge fs s io =
        if (wrap64 (newSeq - s.lastAck) ≥ ackBatch ∨ newSeq ≥ s.init.totalChunks) ∧ newSeq > s.lastAck then
          if io = .ackFails then (fs, { s with stage := .failed }, [])
          else (fs, { s with lastAck := newSeq }, [.ack (newSeq - 1)])
        else (fs, s, []) := by
  obtain ⟨n, hn⟩ := bitmapMaxContinuous_ok s.bitmap s.init.totalChunks
  refine ⟨n, hn, ?_⟩
  unfold acknowledge
  rw [hn]

theorem acknowledge_frame (fs : FS) (s : Session) (io : DataIO) :
    (acknowledge fs s io).1 = fs ∧ (acknowledge fs s io).2.1.bitmap = s.bitmap ∧
      (acknowledge fs s io).2.1.tmpFile = s.tmpFile ∧
      ((acknowledge fs s io).2.1.stage = s.stage ∨ io = .ackFails ∧ (acknowledge fs s io).2.1.stage = .failed) := by
  obtain ⟨n, -, heq⟩ := acknowledge_eq fs s io
  rw [heq]
  split
  · split
    · rename_i hio
      exact ⟨rfl, rfl, rfl, .inr ⟨hio, rfl⟩⟩
    · exact ⟨rfl, rfl, rfl, .inl rfl⟩
  · exact ⟨rfl, rfl, rfl, .inl rfl⟩

def kept (s : Session) : Init × String × SessionState × Bool × Bool :=
  (s.init, s.peer, s.state, s.registered, s.ctxDone)

theorem kept_acknowledge (fs : FS) (s : Session) (io : DataIO) : (acknowledge fs s io).2.1.kept = s.kept := by
  obtain ⟨n, -, heq⟩ := acknowledge_eq fs s io
  rw [heq]
  split
  · split <;> rfl
  · rfl

theorem kept_store (fs : FS) (s : Session) (seq : Int) (data : List Byte) (io : DataIO) :
    (store fs s seq data io).2.1.kept = s.kept := by
  unfold store
  split
  · rfl
  · rfl
  · simp only
    split
    · rfl
    · exact kept_acknowledge _ _ _

theorem kept_receive (env : Env) (fs : FS) (s : Session) (f : Frame) (io : DataIO) :
    (s.receive env fs f io).2.1.kept = s.kept := by
  unfold receive receiveData
  split
  · rfl
  · split
    · split
      · rfl
      · split
        · rfl
        · exact kept_acknowledge fs s io
        · exact kept_store fs s _ _ io
    · split
      · split <;> rfl
      · rfl

theorem init_receive (env : Env) (fs : FS) (s : Session) (f : Frame) (io : DataIO) :
    (s.receive env fs f io).2.1.init = s.init :=
  congrArg Prod.fst (kept_receive env fs s f io)

theorem step_kept {a : Act} (h : s.step env fs a = some r) :
    r.2.1.kept = s.kept ∨
      s.stage = .ready ∧ r.1 = fs ∧ r.2.1 = { s with stage := .loop, registered := true } ∨
      s.stage = .renamed ∧ r.1 = fs ∧
        r.2.1 = { s with stage := .finished, state := .done, doneBytes := s.init.size } ∨
      s.stage = .failed ∧ s.state.ended = false ∧ r.1 = fs.remove (s.tmpPath env) ∧
        r.2.1 = { s with stage := .unregister, state := .error, tmpFile := none } ∨
      s.stage = .unregister ∧ r.1 = fs ∧ r.2.1 = { s with stage := .returned, registered := false } := by
  cases stepped h with
  | received => exact .inl (kept_receive _ _ _ _ _)
  | hashEnd =>
    unfold compare
    left
    split <;> rfl
  | accepted hst => exact .inr (.inl ⟨hst, rfl, rfl⟩)
  | finished hst => exact .inr (.inr (.inl ⟨hst, rfl, rfl⟩))
  | cleaned hst hended => exact .inr (.inr (.inr (.inl ⟨hst, hended, rfl, rfl⟩)))
  | deleted hst => exact .inr (.inr (.inr (.inr ⟨hst, rfl, rfl⟩)))
  | _ => exact .inl rfl

theorem init_step {a : Act} (h : s.step env fs a = some r) : r.2.1.init = s.init := by
  rcases step_kept h with hkept | ⟨-, -, heq⟩ | ⟨-, -, heq⟩ | ⟨-, -, -, heq⟩ | ⟨-, -, heq⟩
  · exact congrArg Prod.fst hkept
  all_goals rw [heq]

theorem fits_of_step {a : Act} (h : s.step env fs a = some r) :
    a.fits s.stage = true := by
  cases stepped h <;> simp only [*, Act.fits]

end Session

end Libp2px.RelayFile
