import Libp2px.Tunnel.Udp

/-!
# `Read` as a reader

`p2pUdpConn.Read` of `pbtunnel/pbtunnel.go` against what `io.Reader` asks for: no panic, at most as many bytes as the
buffer is long, and these are bytes of the next datagram.  `implRead` compares the length that the peer sends with the
capacity of the buffer, while `copy` fills it up to its length.  So the contract is kept if and only if the next datagram
is no longer than the buffer (`read_honours_iff`).

The peer's bytes so far are a list; a read that needs more of them waits, or fails if the stream has ended.
-/

namespace Libp2px.Tunnel

open RelayFile (Byte ReadError readFull)

/-- How a stream goes on after the bytes that are there. -/
inductive Ending
  | open
  | finished
  | reset
  deriving DecidableEq, Repr

structure Source where
  bytes : List Byte
  ending : Ending

/-- The errors of `Read`; that of a dial may have "stream reset" in its text as well. -/
inductive RecvError
  | closed
  | connect (reset : Bool)
  | read (e : ReadError)
  | streamReset
  deriving DecidableEq, Repr

/-- Whether the text of an error contains "stream reset". -/
def RecvError.isReset : RecvError → Bool
  | connect reset => reset
  | streamReset => true
  | _ => false

inductive ReadResult
  | waits
  | panics
  | returns (n : Nat) (err : Option RecvError) (array : List Byte)
  deriving DecidableEq, Repr

structure Inlet where
  holder : Option Source
  closed : Bool

/-- The array behind the buffer after `copy(buf, buf2)`. -/
def Buffer.fill (b : Buffer) (buf2 : Datagram) : List Byte := buf2.take b.len ++ b.array.drop (min b.len buf2.length)

namespace Inlet

/-- `getStream`; `dial` is what `connectOverStream` comes to: a stream, or an error with or without
"stream reset". -/
def getStream (u : Inlet) (dial : Except Bool Source) : Inlet × Except RecvError Source :=
  match u.holder with
  | some s => (u, .ok s)
  | none =>
    if u.closed then (u, .error .closed)
    else
      match dial with
      | .ok s => ({ u with holder := some s }, .ok s)
      | .error reset => ({ u with closed := true }, .error (.connect reset))

/-- `implRead`: what is left on the stream matters only if the datagram is there. -/
def implRead (u : Inlet) (dial : Except Bool Source) (buf : Buffer) : Inlet × ReadResult :=
  match u.getStream dial with
  | (u, .error e) => (u, .returns 0 (some e) buf.array)
  | (u, .ok s) =>
    match readDatagram s.bytes, s.ending with
    | .ok (buf2, rest), _ =>
      ({ u with holder := some { s with bytes := rest } },
        if buf.array.length < buf2.length then .panics else .returns buf2.length none (buf.fill buf2))
    | .error _, .open => (u, .waits)
    | .error e, .finished => ({ u with holder := some { s with bytes := [] } }, .returns 0 (some (.read e)) buf.array)
    | .error _, .reset => ({ u with holder := some { s with bytes := [] } }, .returns 0 (some .streamReset) buf.array)

/-- `Read`: after a reset the conn is closed and read once more. -/
def read (u : Inlet) (dial dial' : Except Bool Source) (buf : Buffer) : Inlet × ReadResult :=
  match u.implRead dial buf with
  | (u, .returns n (some e) array) =>
    if e.isReset then ({ holder := none, closed := true } : Inlet).implRead dial' buf else (u, .returns n (some e) array)
  | r => r

/-- The next datagram on the stream that a call of `Read` gets. -/
def next (u : Inlet) (dial : Except Bool Source) : Option Datagram :=
  match (u.getStream dial).2 with
  | .ok s => (readDatagram s.bytes).toOption.map Prod.fst
  | .error _ => none

end Inlet

/-- What `io.Reader` asks for, and that the bytes are those of the next datagram. -/
def ReadResult.Honours (buf : Buffer) (next : Option Datagram) : ReadResult → Prop
  | waits => True
  | panics => False
  | returns n _ array => n ≤ buf.len ∧ array.take n = (next.getD []).take n

theorem Buffer.take_fill {b : Buffer} {d : Datagram} (h : d.length ≤ b.len) : (b.fill d).take d.length = d := by
  rw [Buffer.fill, List.take_of_length_le h, List.take_left]

theorem ReadResult.honours_datagram_iff (b : Buffer) (d : Datagram) :
    (if b.array.length < d.length then panics else returns d.length none (b.fill d)).Honours b (some d) ↔
      d.length ≤ b.len := by
  have hlen := b.len_le
  split
  · simp only [Honours, false_iff]
    omega
  · constructor
    · exact And.left
    · intro hd
      exact ⟨hd, by simp [Buffer.take_fill hd]⟩

theorem Inlet.implRead_cases (u : Inlet) (dial : Except Bool Source) (buf : Buffer) :
    (∃ d, u.next dial = some d ∧ (u.implRead dial buf).2 =
      if buf.array.length < d.length then .panics else .returns d.length none (buf.fill d)) ∨
    u.next dial = none ∧
      ((u.implRead dial buf).2 = .waits ∨ ∃ e, (u.implRead dial buf).2 = .returns 0 (some e) buf.array) := by
  unfold implRead next
  rcases u.getStream dial with ⟨u', e | s⟩
  · exact .inr ⟨rfl, .inr ⟨e, rfl⟩⟩
  rcases hs : readDatagram s.bytes with e | ⟨d, rest⟩
  · refine .inr ⟨by simp [hs, Except.toOption], ?_⟩
    cases hend : s.ending <;> simp [hs, hend]
  · exact .inl ⟨d, by simp [hs, Except.toOption], by simp [hs]⟩

/-- `Read` keeps to the contract if and only if the next datagram, if there is one, fits into the length of the buffer. -/
theorem Inlet.read_honours_iff (u : Inlet) (dial dial' : Except Bool Source) (buf : Buffer) :
    (u.read dial dial' buf).2.Honours buf (u.next dial) ↔ ∀ d, u.next dial = some d → d.length ≤ buf.len := by
  unfold read
  rcases himpl : u.implRead dial buf with ⟨u', r⟩
  rcases u.implRead_cases dial buf with ⟨d, hnext, hr⟩ | ⟨hnext, hr⟩
  · have hiff := ReadResult.honours_datagram_iff buf d
    obtain rfl : r = _ := by simpa [himpl] using hr
    rw [hnext]
    by_cases hcap : buf.array.length < d.length <;> simpa [hcap] using hiff
  · refine iff_of_true ?_ (by simp [hnext])
    -- the second attempt finds the conn closed
    rcases hr with hr | ⟨e, hr⟩
    · obtain rfl : r = _ := by simpa [himpl] using hr
      trivial
    · obtain rfl : r = _ := by simpa [himpl] using hr
      cases he : e.isReset <;> simp [he, implRead, getStream, ReadResult.Honours]

/-- A datagram of two bytes read into a buffer of length one: with capacity two `Read` returns two, with capacity one it
panics. -/
theorem Inlet.read_overruns :
    let u : Inlet := { holder := some ⟨packet [7, 8], .open⟩, closed := false }
    (u.read (.error false) (.error false) ⟨[0, 0], 1, by decide⟩).2 = .returns 2 none [7, 0] ∧
      (u.read (.error false) (.error false) ⟨[0], 1, by decide⟩).2 = .panics := by
  decide +kernel

end Libp2px.Tunnel
