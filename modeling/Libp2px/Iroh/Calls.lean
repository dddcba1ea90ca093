import Libp2px.Lib.Histories
import Libp2px.Lib.Transition
import Libp2px.Iroh.Endpoint

/-!
# Calls on a stream

`IrohRelayStream` of `p2put/irohrelay.go` with the calls that are in progress on it: calls of `Read`, each of which holds the
lock for one round of its loop and waits on `rxCond` between two rounds; calls of `Write`, which send one piece after the
other without a look at the stream; and calls of `Close`, which set the flag under the lock and send their frame and remove
the stream after it.  Frames are dispatched to the stream at any time.

A CLOSE or a RESET does not end a stream by itself: data that is dispatched later is still read, and a `Write` after `Close`
is still sent.  `ends_iff` says for which frames and calls the end of a stream is an end.
-/

namespace Libp2px.Iroh

open Transition Histories

variable {γ : Type}

/-! ### `Read` -/

inductive ReadResult
  | data (b : List Byte)
  | errClosed
  | eof
  deriving DecidableEq, Repr

def ReadResult.bytes : ReadResult → List Byte
  | data b => b
  | errClosed | eof => []

/-- A round of the loop of `Read` with a buffer of `n` bytes; with `none` the call waits. -/
def Stream.read (s : Stream γ) (n : Nat) : Option (ReadResult × Stream γ) :=
  if s.rxBuf = [] then
    if s.reset then some (.errClosed, s)
    else if s.closed then some (.eof, s)
    else none
  else some (.data (s.rxBuf.take n), { s with rxBuf := s.rxBuf.drop n })

theorem Stream.reset_dispatch (s : Stream γ) (flags : Byte) (data : List Byte) :
    (s.dispatch flags data).reset = true ↔ s.reset = true ∨ flagRESET = flags := by
  unfold Stream.dispatch
  split
  · simp_all
  · rename_i hreset
    have hne : flagRESET ≠ flags := fun heq => hreset heq.symm
    split_ifs <;> simp [hne]

theorem Stream.closed_dispatch {s : Stream γ} {flags : Byte} (data : List Byte)
    (h : s.closed = true ∨ flagCLOSE = flags) : (s.dispatch flags data).closed = true := by
  unfold Stream.dispatch
  rcases h with h | rfl
  · split_ifs <;> simp [h]
  · rfl

theorem Stream.rxBuf_dispatch {s : Stream γ} {flags : Byte} (data : List Byte) (h : flagRESET ≠ flags) :
    (s.dispatch flags data).rxBuf = s.rxBuf ++ if flags = flagDATA then data else [] := by
  unfold Stream.dispatch
  rw [if_neg fun heq => h heq.symm]
  split
  · rename_i hclose
    rw [hclose, if_neg (by decide), List.append_nil]
  · split_ifs <;> simp

theorem Stream.read_cases (s : Stream γ) (n : Nat) :
    (s.rxBuf ≠ [] ∧ s.read n = some (.data (s.rxBuf.take n), { s with rxBuf := s.rxBuf.drop n })) ∨
      s.rxBuf = [] ∧ ((s.reset = true ∧ s.read n = some (.errClosed, s)) ∨
        (s.reset = false ∧ s.closed = true ∧ s.read n = some (.eof, s)) ∨
        s.reset = false ∧ s.closed = false ∧ s.read n = none) := by
  unfold Stream.read
  by_cases hbuf : s.rxBuf = []
  · right
    cases hreset : s.reset with
    | true => simp [hbuf]
    | false => cases hclosed : s.closed <;> simp [hbuf]
  · left
    simp [hbuf]

/-! ### Calls in progress -/

/-- What comes from outside, in its order: frames and the calls of `Write` and `Close`. -/
inductive Input
  | frame (flags : Byte) (data : List Byte)
  | write (b : List Byte)
  | close
  deriving DecidableEq, Repr

@[simp] def Input.data : Input → List Byte
  | frame flags data => if flags = flagDATA then data else []
  | write _ | close => []

/-- What happens at a stream. A frame is sent late if its `Write` began after a `Close` had returned. -/
inductive Event
  | input (i : Input)
  | read (r : ReadResult)
  | sent (f : Frame) (late : Bool)
  deriving DecidableEq, Repr

@[simp] def Event.input? : Event → Option Input
  | input i => some i
  | read _ | sent _ _ => none

@[simp] def Event.bytes : Event → List Byte
  | read r => r.bytes
  | input _ | sent _ _ => []

inductive Result
  | wrote (n : Nat) (ok : Bool)
  | closed (ok : Bool)
  deriving DecidableEq, Repr

/-- A call of `Write`: the length of its bytes, what is left of them, and whether it is late. -/
structure Writing where
  total : Nat
  rest : List Byte
  late : Bool
  deriving DecidableEq, Repr

/-- The calls on a stream: the buffers of the `Read`s that wait on `rxCond` and of those that have been woken; the
`Write`s; whether a `Close` has set the flag, and whether one has returned; the results; and what has happened. -/
structure Calls where
  waiting : List Nat
  woken : List Nat
  writing : List Writing
  closing : Bool
  released : Bool
  results : List Result
  log : List Event
  deriving DecidableEq, Repr

namespace Calls

def start : Calls := ⟨[], [], [], false, false, [], []⟩

def add (c : Calls) (e : Event) : Calls := { c with log := c.log ++ [e] }

def yield (c : Calls) (r : Result) : Calls := { c with results := c.results ++ [r] }

def broadcast (c : Calls) : Calls := { c with waiting := [], woken := c.woken ++ c.waiting }

/-- A call of `Read` takes the lock. -/
def readRound (st : Stream γ) (c : Calls) (n : Nat) : Stream γ × Calls :=
  match st.read n with
  | some (r, st) => (st, c.add (.read r))
  | none => (st, { c with waiting := c.waiting ++ [n] })

def dispatch (st : Stream γ) (c : Calls) (flags : Byte) (data : List Byte) : Stream γ × Calls :=
  let c := c.add (.input (.frame flags data))
  (st.dispatch flags data, if flags = flagRESET ∨ flags = flagCLOSE ∨ flags = flagDATA then c.broadcast else c)

def write (c : Calls) (b : List Byte) : Calls :=
  let c := c.add (.input (.write b))
  if b = [] then c.yield (.wrote 0 true) else { c with writing := c.writing ++ [⟨b.length, b, c.released⟩] }

/-- The `j`-th call of `Write` sends its next piece, or fails to. -/
def send (st : Stream γ) (c : Calls) (j : Nat) (w : Writing) (sent : Bool) : Calls :=
  if sent then
    let c := c.add (.sent ⟨st.id, flagDATA, w.rest.take maxDatagramPayload⟩ w.late)
    let rest := w.rest.drop maxDatagramPayload
    if rest = [] then yield { c with writing := c.writing.eraseIdx j } (.wrote w.total true)
    else { c with writing := c.writing.set j { w with rest := rest } }
  else yield { c with writing := c.writing.eraseIdx j } (.wrote (w.total - w.rest.length) false)

/-- A call of `Close` takes the lock. -/
def close (st : Stream γ) (c : Calls) : Stream γ × Calls :=
  let c := c.add (.input .close)
  if st.closed then (st, yield { c with released := true } (.closed false))
  else ({ st with closed := true }, { c with closing := true })

/-- The end of a call of `Close` that has set the flag. -/
def closeReturns (st : Stream γ) (c : Calls) (sent : Bool) : Calls :=
  let c := yield { c with closing := false, released := true } (.closed true)
  if sent then c.add (.sent ⟨st.id, flagCLOSE, []⟩ false) else c

end Calls

/-- The inputs, and the schedule of `Read`s, woken `Read`s, the pieces of `Write`s and the end of `Close`. -/
inductive StreamAct
  | call (i : Input)
  | read (n : Nat)
  | resume (j : Nat)
  | send (j : Nat) (sent : Bool)
  | closeReturns (sent : Bool)
  deriving DecidableEq, Repr

def Calls.next (st : Stream γ) (c : Calls) : StreamAct → Option (Stream γ × Calls)
  | .call (.frame flags data) => some (c.dispatch st flags data)
  | .call (.write b) => some (st, c.write b)
  | .call .close => some (c.close st)
  | .read n => some (c.readRound st n)
  | .resume j => (c.woken[j]?).map fun n => readRound st { c with woken := c.woken.eraseIdx j } n
  | .send j sent => (c.writing[j]?).map fun w => (st, c.send st j w sent)
  | .closeReturns sent => if c.closing then some (st, c.closeReturns st sent) else none

def streamSystem (id : Nat) (label : γ) : System (Stream γ × Calls) StreamAct :=
  .ofNext (· = (newStream id label, Calls.start)) fun s a => s.2.next s.1 a

@[simp] def StreamAct.inputs : StreamAct → List Input
  | call i => [i]
  | read _ | resume _ | send _ _ | closeReturns _ => []

/-! ### What happened -/

def inputsOf (log : List Event) : List Input := log.filterMap Event.input?

def dataOf (ins : List Input) : List Byte := ins.flatMap Input.data

def readOf (log : List Event) : List Byte := log.flatMap Event.bytes

def HasFrame (flags : Byte) (ins : List Input) : Prop := ∃ data, Input.frame flags data ∈ ins

/-- What the end of a stream means for an event: after a RESET a `Read` returns no byte; after a CLOSE it returns what
is left of the data before the CLOSE, and then `io.EOF`; a `Write` begun after `Close` returned sends no data. -/
def Event.Fine (log : List Event) : Event → Prop
  | .read r =>
    (HasFrame flagRESET (inputsOf log) → r.bytes = []) ∧
      ∀ before data after, inputsOf log = before ++ .frame flagCLOSE data :: after →
        r = .eof ∧ readOf log = dataOf before ∨
          ∃ b, r = .data b ∧ readOf log ≠ dataOf before ∧ readOf log ++ b <+: dataOf before
  | .sent f late => f.flags = flagDATA → late = false
  | .input _ => True

/-- The stream ended where its frames and calls end it: all events agree, and no `Read` waits after a CLOSE. -/
structure Calls.Ends (c : Calls) : Prop where
  fine : Each (fun log e => e.Fine log) c.log
  returns : HasFrame flagCLOSE (inputsOf c.log) → c.waiting = []

/-- Data comes before every CLOSE and RESET, these do not come together, and nothing is written after `Close`. -/
def Input.InOrder (before : List Input) : Input → Prop
  | .frame flags data =>
    (flags = flagDATA → data ≠ [] → ¬HasFrame flagRESET before ∧ ¬HasFrame flagCLOSE before) ∧
      (flags = flagCLOSE → ¬HasFrame flagRESET before) ∧ (flags = flagRESET → ¬HasFrame flagCLOSE before)
  | .write b => b ≠ [] → .close ∉ before
  | .close => True

def Ordered (ins : List Input) : Prop := Each (fun before i => i.InOrder before) ins

/-! ### Histories of a stream -/

section Logs

variable {log : List Event} {ins ins' before after : List Input} {flags : Byte} {data : List Byte}

@[simp] theorem inputsOf_append (log log' : List Event) : inputsOf (log ++ log') = inputsOf log ++ inputsOf log' :=
  List.filterMap_append

@[simp] theorem readOf_append (log log' : List Event) : readOf (log ++ log') = readOf log ++ readOf log' :=
  List.flatMap_append

@[simp] theorem dataOf_append (ins ins' : List Input) : dataOf (ins ++ ins') = dataOf ins ++ dataOf ins' :=
  List.flatMap_append

@[simp] theorem inputsOf_singleton (e : Event) : inputsOf [e] = e.input?.toList := by
  cases e <;> rfl

@[simp] theorem readOf_singleton (e : Event) : readOf [e] = e.bytes := List.flatMap_singleton ..

@[simp] theorem dataOf_singleton (i : Input) : dataOf [i] = i.data := List.flatMap_singleton ..

@[simp] theorem hasFrame_append : HasFrame flags (ins ++ ins') ↔ HasFrame flags ins ∨ HasFrame flags ins' := by
  simp only [HasFrame, List.mem_append, exists_or]

@[simp] theorem hasFrame_singleton {flags' : Byte} : HasFrame flags [.frame flags' data] ↔ flags = flags' := by
  simp [HasFrame]

@[simp] theorem not_hasFrame_write {b : List Byte} : ¬HasFrame flags [.write b] := by
  simp [HasFrame]

@[simp] theorem not_hasFrame_close : ¬HasFrame flags [.close] := by
  simp [HasFrame]

@[simp] theorem not_hasFrame_nil : ¬HasFrame flags [] := by
  simp [HasFrame]

theorem hasFrame_iff : HasFrame flags ins ↔ ∃ before data after, ins = before ++ .frame flags data :: after := by
  simp only [HasFrame, List.mem_iff_append]
  tauto

theorem Ordered.close (h : Ordered (before ++ .frame flagCLOSE data :: after)) :
    ¬HasFrame flagRESET (before ++ .frame flagCLOSE data :: after) ∧ dataOf after = [] := by
  have hlate : ∀ b i a, after = b ++ i :: a → i.InOrder (before ++ .frame flagCLOSE data :: b) := by
    rintro b i a rfl
    exact h _ i a (by simp)
  have hclose : ∀ b, HasFrame flagCLOSE (before ++ .frame flagCLOSE data :: b) := fun b => ⟨data, by simp⟩
  constructor
  · have hbefore : ¬HasFrame flagRESET before := (h before _ after rfl).2.1 rfl
    rw [List.append_cons, hasFrame_append, hasFrame_append, hasFrame_singleton]
    rintro ((hreset | heq) | hreset)
    · exact hbefore hreset
    · cases heq
    · obtain ⟨b, data', a, heq⟩ := hasFrame_iff.1 hreset
      exact (hlate b _ a heq).2.2 rfl (hclose b)
  · refine List.flatMap_eq_nil_iff.2 fun i hi => ?_
    obtain ⟨b, a, heq⟩ := List.append_of_mem hi
    have hi := hlate b i a heq
    cases i with
    | frame flags data' =>
      by_cases hflags : flags = flagDATA
      · by_contra hne
        exact (hi.1 hflags (by simpa [hflags] using hne)).2 (hclose b)
      · simp [hflags]
    | write b => rfl
    | close => rfl

end Logs

/-! ### Runs -/

namespace Calls

variable {st : Stream γ} {c : Calls}

theorem next_cases {a : StreamAct} {r : Stream γ × Calls} (h : c.next st a = some r) :
    (∃ flags data, a = .call (.frame flags data) ∧ r = c.dispatch st flags data) ∨
      (∃ b, a = .call (.write b) ∧ r = (st, c.write b)) ∨ (a = .call .close ∧ r = c.close st) ∨
      (∃ n woken, (a = .read n ∨ ∃ j, a = .resume j) ∧ r = readRound st { c with woken := woken } n) ∨
      (∃ j w sent, a = .send j sent ∧ w ∈ c.writing ∧ r = (st, c.send st j w sent)) ∨
      ∃ sent, a = .closeReturns sent ∧ c.closing = true ∧ r = (st, c.closeReturns st sent) := by
  cases a with
  | call i =>
    cases i with
    | frame flags data => exact .inl ⟨flags, data, rfl, (Option.some.inj h).symm⟩
    | write b => exact .inr (.inl ⟨b, rfl, (Option.some.inj h).symm⟩)
    | close => exact .inr (.inr (.inl ⟨rfl, (Option.some.inj h).symm⟩))
  | read n => exact .inr (.inr (.inr (.inl ⟨n, c.woken, .inl rfl, (Option.some.inj h).symm⟩)))
  | resume j =>
    obtain ⟨n, -, rfl⟩ := Option.map_eq_some_iff.1 h
    exact .inr (.inr (.inr (.inl ⟨n, _, .inr ⟨j, rfl⟩, rfl⟩)))
  | send j sent =>
    obtain ⟨w, hw, rfl⟩ := Option.map_eq_some_iff.1 h
    exact .inr (.inr (.inr (.inr (.inl ⟨j, w, sent, rfl, List.mem_of_getElem? hw, rfl⟩))))
  | closeReturns sent =>
    simp only [next, Option.ite_none_right_eq_some, Option.some.injEq] at h
    exact .inr (.inr (.inr (.inr (.inr ⟨sent, rfl, h.1, h.2.symm⟩))))

/-- What the frames and calls have told the stream, in every run; and how it ends if the inputs are in order. -/
structure Told (st : Stream γ) (c : Calls) : Prop where
  reset : st.reset = true ↔ HasFrame flagRESET (inputsOf c.log)
  closed : HasFrame flagCLOSE (inputsOf c.log) ∨ c.closing = true ∨ c.released = true → st.closed = true
  bytes : ¬HasFrame flagRESET (inputsOf c.log) → readOf c.log ++ st.rxBuf = dataOf (inputsOf c.log)
  waiting : HasFrame flagCLOSE (inputsOf c.log) → c.waiting = []
  close : .close ∈ inputsOf c.log ↔ c.closing = true ∨ c.released = true
  empty : Ordered (inputsOf c.log) → HasFrame flagRESET (inputsOf c.log) → st.rxBuf = []
  late : Ordered (inputsOf c.log) → ∀ w ∈ c.writing, w.late = false
  fine : Ordered (inputsOf c.log) → Each (fun log e => e.Fine log) c.log

theorem told_start (id : Nat) (label : γ) : Told (newStream id label) start := by
  constructor <;> simp [newStream, start, inputsOf, readOf, dataOf, HasFrame, each_nil]

theorem Told.congr {st' : Stream γ} {c' : Calls} {l : List Input} (h : Told st c) (hreset : st'.reset = st.reset)
    (hbuf : st'.rxBuf = st.rxBuf) (hkeep : st.closed = true → st'.closed = true)
    (hins : inputsOf c'.log = inputsOf c.log ++ l) (hno : ∀ flags, ¬HasFrame flags l) (hdata : dataOf l = [])
    (hread : readOf c'.log = readOf c.log) (hwaiting : c'.waiting = c.waiting)
    (hclosed : c'.closing = true ∨ c'.released = true → st'.closed = true)
    (hclose : .close ∈ l ∨ c.closing = true ∨ c.released = true ↔ c'.closing = true ∨ c'.released = true)
    (hlate : Ordered (inputsOf c'.log) → ∀ w ∈ c'.writing, w ∉ c.writing → w.late = false)
    (hfine : Ordered (inputsOf c'.log) → Each (fun log e => e.Fine log) c.log →
      Each (fun log e => e.Fine log) c'.log) : Told st' c' := by
  have hframe : ∀ flags, HasFrame flags (inputsOf c'.log) ↔ HasFrame flags (inputsOf c.log) := by
    intro flags
    rw [hins, hasFrame_append, or_iff_left (hno flags)]
  have hord : Ordered (inputsOf c'.log) → Ordered (inputsOf c.log) := by
    rw [hins]
    exact Each.left
  refine ⟨?_, ?_, ?_, ?_, ?_, ?_, ?_, fun ho => hfine ho (h.fine (hord ho))⟩
  · rw [hreset, hframe, h.reset]
  · rw [hframe]
    exact Or.rec (fun hf => hkeep (h.closed (.inl hf))) hclosed
  · rw [hframe, hread, hbuf, hins, dataOf_append, hdata, List.append_nil]
    exact h.bytes
  · rw [hframe, hwaiting]
    exact h.waiting
  · rw [hins, List.mem_append, h.close, ← hclose, or_comm]
  · rw [hframe, hbuf]
    exact fun ho => h.empty (hord ho)
  · intro ho w hw
    by_cases hold : w ∈ c.writing
    · exact h.late (hord ho) w hold
    · exact hlate ho w hw hold

theorem dispatch_frame (st : Stream γ) (c : Calls) (flags : Byte) (data : List Byte) :
    ∃ waiting woken, c.dispatch st flags data = (st.dispatch flags data,
        { c.add (.input (.frame flags data)) with waiting := waiting, woken := woken }) ∧
      (waiting = [] ∨ flags ≠ flagCLOSE ∧ waiting = c.waiting) := by
  unfold dispatch
  simp only
  split
  · exact ⟨_, _, rfl, .inl rfl⟩
  · rename_i hother
    rw [not_or, not_or] at hother
    exact ⟨_, _, rfl, .inr ⟨hother.2.1, rfl⟩⟩

theorem Told.dispatch (h : Told st c) (flags : Byte) (data : List Byte) :
    Told (c.dispatch st flags data).1 (c.dispatch st flags data).2 := by
  obtain ⟨waiting, woken, heq, hwaiting⟩ := dispatch_frame st c flags data
  rw [heq]
  have hins : inputsOf (c.log ++ [.input (.frame flags data)]) = inputsOf c.log ++ [.frame flags data] := by simp
  have hread : readOf (c.log ++ [.input (.frame flags data)]) = readOf c.log := by simp
  refine ⟨?_, ?_, ?_, ?_, ?_, ?_, ?_, ?_⟩ <;> simp only [add, hins, hread]
  · rw [hasFrame_append, hasFrame_singleton, ← h.reset]
    exact st.reset_dispatch flags data
  · rw [hasFrame_append, hasFrame_singleton]
    rintro ((hframe | rfl) | hcall)
    · exact Stream.closed_dispatch data (.inl (h.closed (.inl hframe)))
    · exact Stream.closed_dispatch data (.inr rfl)
    · exact Stream.closed_dispatch data (.inl (h.closed (.inr hcall)))
  · rw [hasFrame_append, hasFrame_singleton, not_or, dataOf_append, dataOf_singleton]
    rintro ⟨hnot, hne⟩
    rw [← h.bytes hnot, List.append_assoc, Stream.rxBuf_dispatch data hne]
    rfl
  · rw [hasFrame_append, hasFrame_singleton]
    rcases hwaiting with hnil | ⟨hne, hsame⟩
    · exact fun _ => hnil
    · rintro (hframe | rfl)
      · exact hsame.trans (h.waiting hframe)
      · exact absurd rfl hne
  · simp [h.close]
  · rw [hasFrame_append, hasFrame_singleton]
    intro hord hreset
    by_cases hflags : flagRESET = flags
    · subst hflags
      rfl
    · have hreset' := hreset.resolve_right hflags
      rw [Stream.rxBuf_dispatch data hflags, h.empty hord.left hreset', List.nil_append]
      split
      · rename_i hdata
        by_contra hne
        exact ((each_concat.1 hord).2.1 hdata hne).1 hreset'
      · rfl
  · exact fun hord => h.late hord.left
  · exact fun hord => each_concat.2 ⟨h.fine hord.left, trivial⟩

theorem Told.readRound (h : Told st c) (n : Nat) : Told (c.readRound st n).1 (c.readRound st n).2 := by
  -- if the inputs are in order, a CLOSE leaves what was dispatched before it
  have hclose : Ordered (inputsOf c.log) → ∀ {before data after},
      inputsOf c.log = before ++ .frame flagCLOSE data :: after →
      st.reset = false ∧ readOf c.log ++ st.rxBuf = dataOf before := by
    intro hord before data after heq
    rw [heq] at hord
    have hbytes := h.bytes (heq ▸ hord.close.1)
    rw [heq, List.append_cons, dataOf_append, hord.close.2, dataOf_append, dataOf_singleton, Input.data,
      if_neg (by decide), List.append_nil, List.append_nil] at hbytes
    refine ⟨?_, hbytes⟩
    rw [← Bool.not_eq_true, h.reset, heq]
    exact hord.close.1
  unfold Calls.readRound
  rcases st.read_cases n with ⟨hbuf, heq⟩ | ⟨hbuf, ⟨hreset, heq⟩ | ⟨hreset, -, heq⟩ | ⟨-, hopen, heq⟩⟩
  · rw [heq]
    have hnot : Ordered (inputsOf c.log) → ¬HasFrame flagRESET (inputsOf c.log) := fun ho hr => hbuf (h.empty ho hr)
    refine ⟨?_, ?_, ?_, ?_, ?_, ?_, ?_, ?_⟩ <;> simp only [add, inputsOf_append, inputsOf_singleton, Event.input?,
      Option.toList_none, List.append_nil]
    · exact h.reset
    · exact h.closed
    · intro hno
      simpa [ReadResult.bytes] using h.bytes hno
    · exact h.waiting
    · exact h.close
    · exact fun ho hr => absurd hr (hnot ho)
    · exact h.late
    · intro ho
      refine each_concat.2 ⟨h.fine ho, fun hr => absurd hr (hnot ho), ?_⟩
      intro before data after hins
      obtain ⟨-, hbytes⟩ := hclose ho hins
      refine .inr ⟨_, rfl, ?_, ?_⟩
      · intro hall
        rw [hall] at hbytes
        exact hbuf (List.append_right_eq_self.1 hbytes)
      · rw [← hbytes]
        exact List.prefix_append_right_inj _ |>.2 (List.take_prefix n _)
  · rw [heq]
    refine h.congr rfl rfl id (l := []) ?_ (by simp) rfl ?_ rfl (fun hc => h.closed (.inr hc)) (by simp [add]) ?_ ?_
    · simp [add]
    · simp [add, ReadResult.bytes]
    · exact fun _ w hw hno => absurd hw hno
    · intro ho hfine
      refine each_concat.2 ⟨hfine, fun _ => rfl, ?_⟩
      intro before data after hins
      rw [(hclose (by simpa [add] using ho) hins).1] at hreset
      cases hreset
  · rw [heq]
    refine h.congr rfl rfl id (l := []) ?_ (by simp) rfl ?_ rfl (fun hc => h.closed (.inr hc)) (by simp [add]) ?_ ?_
    · simp [add]
    · simp [add, ReadResult.bytes]
    · exact fun _ w hw hno => absurd hw hno
    · intro ho hfine
      refine each_concat.2 ⟨hfine, fun _ => rfl, ?_⟩
      intro before data after hins
      have hbytes := (hclose (by simpa [add] using ho) hins).2
      rw [hbuf, List.append_nil] at hbytes
      exact .inl ⟨rfl, hbytes⟩
  · rw [heq]
    -- a call that waits has found the stream open
    have hno : ¬HasFrame flagCLOSE (inputsOf c.log) := by
      intro hframe
      rw [h.closed (.inl hframe)] at hopen
      cases hopen
    exact { h with waiting := fun hframe => absurd hframe hno }

theorem Told.write (h : Told st c) (b : List Byte) : Told st (c.write b) := by
  unfold Calls.write
  simp only
  split
  · refine h.congr (l := [.write b]) rfl rfl id ?_ (by simp) rfl ?_ rfl (fun hc => h.closed (.inr hc)) ?_ ?_ ?_
    · simp [add, yield]
    · simp [add, yield]
    · simp [add, yield]
    · exact fun _ w hw hno => absurd hw hno
    · exact fun _ hfine => each_concat.2 ⟨hfine, trivial⟩
  · rename_i hb
    refine h.congr (l := [.write b]) rfl rfl id ?_ (by simp) rfl ?_ rfl (fun hc => h.closed (.inr hc)) ?_ ?_ ?_
    · simp [add]
    · simp [add]
    · simp [add]
    · intro hord w hw hno
      have hord' : Ordered (inputsOf c.log ++ [.write b]) := by simpa [add] using hord
      rcases List.mem_append.1 hw with hold | hnew
      · exact absurd hold hno
      · rw [List.mem_singleton.1 hnew]
        -- no call of `Close` has begun
        by_contra hlate
        exact (each_concat.1 hord').2 hb (h.close.2 (.inr (by simpa [add] using hlate)))
    · exact fun _ hfine => each_concat.2 ⟨hfine, trivial⟩

theorem Told.send (h : Told st c) {w : Writing} (hw : w ∈ c.writing) (j : Nat) (sent : Bool) :
    Told st (c.send st j w sent) := by
  have hcall : c.closing = true ∨ c.released = true → st.closed = true := fun hc => h.closed (.inr hc)
  have herase : ∀ w ∈ c.writing.eraseIdx j, w ∉ c.writing → w.late = false :=
    fun w hw hno => absurd (List.mem_of_mem_eraseIdx hw) hno
  have hfine : Ordered (inputsOf c.log) → Each (fun log e => e.Fine log) c.log → Each (fun log e => e.Fine log)
      (c.log ++ [.sent ⟨st.id, flagDATA, w.rest.take maxDatagramPayload⟩ w.late]) :=
    fun hord hfine => each_concat.2 ⟨hfine, fun _ => h.late hord w hw⟩
  unfold Calls.send
  simp only
  split
  · split
    · refine h.congr (l := []) rfl rfl id ?_ (by simp) rfl ?_ rfl hcall (by simp [add, yield]) (fun _ => herase) ?_
      · simp [add, yield]
      · simp [add, yield]
      · simpa [add, yield] using hfine
    · refine h.congr (l := []) rfl rfl id ?_ (by simp) rfl ?_ rfl hcall (by simp [add]) ?_ ?_
      · simp [add]
      · simp [add]
      · intro hord w' hw' hno
        rcases List.mem_or_eq_of_mem_set hw' with hold | rfl
        · exact absurd hold hno
        · exact h.late (by simpa [add] using hord) w hw
      · simpa [add] using hfine
  · exact h.congr (l := []) rfl rfl id (by simp [yield]) (by simp) rfl rfl rfl hcall (by simp [yield])
      (fun _ => herase) fun _ hfine => hfine

theorem Told.closeCall (h : Told st c) : Told (c.close st).1 (c.close st).2 := by
  have hfine : Each (fun log e => e.Fine log) c.log → Each (fun log e => e.Fine log) (c.log ++ [.input .close]) :=
    fun hfine => each_concat.2 ⟨hfine, trivial⟩
  unfold Calls.close
  simp only
  split
  · rename_i hclosed
    exact h.congr (l := [.close]) rfl rfl id (by simp [add, yield]) (by simp) rfl (by simp [add, yield]) rfl
      (fun _ => hclosed) (by simp [yield]) (fun _ w hw hno => absurd hw hno) fun _ => hfine
  · exact h.congr (l := [.close]) rfl rfl (fun _ => rfl) (by simp [add]) (by simp) rfl (by simp [add]) rfl
      (fun _ => rfl) (by simp) (fun _ w hw hno => absurd hw hno) fun _ => hfine

theorem Told.closeReturns (h : Told st c) (hc : c.closing = true) (sent : Bool) : Told st (c.closeReturns st sent) := by
  have hclosed := h.closed (.inr (.inl hc))
  cases sent with
  | true =>
    exact h.congr (l := []) rfl rfl id (by simp [Calls.closeReturns, add, yield]) (by simp) rfl
      (by simp [Calls.closeReturns, add, yield]) rfl (fun _ => hclosed) (by simp [Calls.closeReturns, add, yield, hc])
      (fun _ w hw hno => absurd hw hno) fun _ hfine => each_concat.2 ⟨hfine, fun hno => by cases hno⟩
  | false =>
    exact h.congr (l := []) rfl rfl id (by simp [Calls.closeReturns, yield]) (by simp) rfl rfl rfl (fun _ => hclosed)
      (by simp [Calls.closeReturns, yield, hc]) (fun _ w hw hno => absurd hw hno) fun _ hfine => hfine

theorem Told.next {a : StreamAct} {r : Stream γ × Calls} (h : Told st c) (hn : c.next st a = some r) :
    Told r.1 r.2 := by
  rcases next_cases hn with ⟨flags, data, -, rfl⟩ | ⟨b, -, rfl⟩ | ⟨-, rfl⟩ | ⟨n, woken, -, rfl⟩ |
    ⟨j, w, sent, -, hw, rfl⟩ | ⟨sent, -, hc, rfl⟩
  · exact h.dispatch flags data
  · exact h.write b
  · exact h.closeCall
  · have hwoken : Told st { c with woken := woken } :=
      { h with }
    exact hwoken.readRound n
  · exact h.send hw j sent
  · exact h.closeReturns hc sent

end Calls

section Runs

variable {id : Nat} {label : γ} {s t : Stream γ × Calls} {ins before after : List Input}

theorem told_reach (h : (streamSystem id label).Reach anyStep s) : Calls.Told s.1 s.2 := by
  refine h.invariant (I := fun s => Calls.Told s.1 s.2) ?_ ?_
  · rintro s rfl
    exact Calls.told_start id label
  · rintro s a t - hs - hn
    exact hs.next hn

/-- A run with these inputs, at whose end no call of `Close` is in progress. -/
structure RunOf (id : Nat) (label : γ) (s t : Stream γ × Calls) (ins : List Input) : Prop where
  steps : (streamSystem id label).Steps anyStep s t
  closing : t.2.closing = false
  log : ∃ events, t.2.log = s.2.log ++ events ∧ inputsOf events = ins

theorem RunOf.trans {u : Stream γ × Calls} {ins' : List Input} (h : RunOf id label s t ins)
    (h' : RunOf id label t u ins') : RunOf id label s u (ins ++ ins') := by
  obtain ⟨events, hlog, hins⟩ := h.log
  obtain ⟨events', hlog', hins'⟩ := h'.log
  exact ⟨h.steps.trans h'.steps, h'.closing, events ++ events', by rw [hlog', hlog, List.append_assoc],
    by rw [inputsOf_append, hins, hins']⟩

theorem RunOf.single {a : StreamAct} {e : Event} (h : s.2.next s.1 a = some t) (hclosing : t.2.closing = false)
    (hlog : t.2.log = s.2.log ++ [e]) : RunOf id label s t e.input?.toList :=
  ⟨.single trivial h, hclosing, [e], hlog, inputsOf_singleton e⟩

variable (id label) in
theorem exists_runOf_input (hs : s.2.closing = false) (i : Input) : ∃ t, RunOf id label s t [i] := by
  cases i with
  | frame flags data =>
    obtain ⟨waiting, woken, heq, -⟩ := Calls.dispatch_frame s.1 s.2 flags data
    have hstep : s.2.next s.1 (.call (.frame flags data)) = some (s.2.dispatch s.1 flags data) := rfl
    rw [heq] at hstep
    exact ⟨_, .single hstep hs rfl⟩
  | write b =>
    have hwrite : (s.2.write b).closing = false ∧ (s.2.write b).log = s.2.log ++ [.input (.write b)] := by
      unfold Calls.write
      simp only
      split <;> exact ⟨hs, rfl⟩
    exact ⟨_, .single (a := .call (.write b)) rfl hwrite.1 hwrite.2⟩
  | close =>
    have hstep : s.2.next s.1 (.call .close) = some (s.2.close s.1) := rfl
    unfold Calls.close at hstep
    simp only at hstep
    split at hstep
    · exact ⟨_, .single hstep hs rfl⟩
    · have hsteps := System.Steps.single (M := streamSystem id label) (P := anyStep) trivial hstep
      exact ⟨_, hsteps.tail (l := .closeReturns false) trivial rfl, rfl, [.input .close], rfl, rfl⟩

variable (id label) in
theorem exists_runOf (hs : s.2.closing = false) (ins : List Input) : ∃ t, RunOf id label s t ins := by
  induction ins generalizing s with
  | nil => exact ⟨s, .refl s, hs, [], by simp, rfl⟩
  | cons i ins ih =>
    obtain ⟨t, ht⟩ := exists_runOf_input id label hs i
    obtain ⟨u, hu⟩ := ih ht.closing
    exact ⟨u, ht.trans hu⟩

variable (after) in
theorem fine_of_ends {a : StreamAct} {e : Event}
    (hall : ∀ s : Stream γ × Calls, (streamSystem id label).Reach anyStep s → inputsOf s.2.log = ins → s.2.Ends)
    (hs : (streamSystem id label).Reach anyStep s) (hstep : s.2.next s.1 a = some t) (hclosing : t.2.closing = false)
    (hlog : t.2.log = s.2.log ++ [e]) (hno : e.input? = none) (hins : inputsOf s.2.log ++ after = ins) :
    e.Fine s.2.log := by
  obtain ⟨u, hu⟩ := exists_runOf id label hclosing after
  obtain ⟨events, hlog', hins'⟩ := hu.log
  have hends := hall u ((hs.step trivial hstep).steps hu.steps) (by
    rw [hlog', hlog, inputsOf_append, inputsOf_append, inputsOf_singleton, hno, hins', ← hins, Option.toList_none,
      List.append_nil])
  exact hends.fine s.2.log e events (by simp [hlog', hlog])

variable (after) in
theorem fine_read_of_ends {n : Nat} {r : ReadResult} {st : Stream γ}
    (hall : ∀ s : Stream γ × Calls, (streamSystem id label).Reach anyStep s → inputsOf s.2.log = ins → s.2.Ends)
    (hs : (streamSystem id label).Reach anyStep s) (hclosing : s.2.closing = false)
    (hread : s.1.read n = some (r, st)) (hins : inputsOf s.2.log ++ after = ins) : (Event.read r).Fine s.2.log := by
  have hstep : s.2.next s.1 (.read n) = some (st, s.2.add (.read r)) := by
    simp only [Calls.next, Calls.readRound, hread]
  exact fine_of_ends after hall hs hstep hclosing rfl rfl hins

variable (id label) in
theorem exists_drained (hs : s.2.closing = false) :
    ∃ t, RunOf id label s t [] ∧ t.1.rxBuf = [] ∧ t.1.reset = s.1.reset := by
  by_cases hbuf : s.1.rxBuf = []
  · exact ⟨s, ⟨.refl s, hs, [], by simp, rfl⟩, hbuf, rfl⟩
  · have hstep : s.2.next s.1 (.read s.1.rxBuf.length) =
        some ({ s.1 with rxBuf := [] }, s.2.add (.read (.data s.1.rxBuf))) := by
      simp [Calls.next, Calls.readRound, Stream.read, hbuf]
    exact ⟨_, .single hstep hs rfl, rfl, rfl⟩

theorem inOrder_frame_of_ends {flags : Byte} {data : List Byte}
    (hall : ∀ s : Stream γ × Calls, (streamSystem id label).Reach anyStep s →
      inputsOf s.2.log = before ++ .frame flags data :: after → s.2.Ends)
    (hs : (streamSystem id label).Reach anyStep s) (hclosing : s.2.closing = false)
    (hbefore : inputsOf s.2.log = before) : (Input.frame flags data).InOrder before := by
  obtain ⟨waiting, woken, heq, -⟩ := Calls.dispatch_frame s.1 s.2 flags data
  have hstep : (streamSystem id label).step s (.call (.frame flags data)) (s.2.dispatch s.1 flags data) := rfl
  rw [heq] at hstep
  have ht := hs.step trivial hstep
  have htold := told_reach ht
  generalize hst : s.1.dispatch flags data = st at ht htold
  generalize hc : ({ s.2.add (.input (.frame flags data)) with waiting := waiting, woken := woken } : Calls) = c
    at ht htold
  have hins : inputsOf c.log = before ++ [.frame flags data] := by simp [← hc, Calls.add, hbefore]
  have hrest : inputsOf c.log ++ after = before ++ .frame flags data :: after := by simp [hins]
  have hclosing' : c.closing = false := by rw [← hc]; exact hclosing
  -- a `Read` that finds a stream with a RESET empty
  have herr : HasFrame flagRESET (inputsOf c.log) → ¬HasFrame flagCLOSE (inputsOf c.log) := by
    intro hreset hclose
    obtain ⟨u, hu, hbuf, hsame⟩ := exists_drained id label (s := (st, c)) hclosing'
    obtain ⟨events, hlog, hnone⟩ := hu.log
    have hins' : inputsOf u.2.log = inputsOf c.log := by simp [hlog, hnone]
    have hread : u.1.read 0 = some (.errClosed, u.1) := by
      rw [Stream.read, if_pos hbuf, if_pos (hsame.trans (htold.reset.2 hreset))]
    have hfine := fine_read_of_ends after hall (ht.steps hu.steps) hu.closing hread (by rw [hins', hrest])
    obtain ⟨b, d, a, heq⟩ := hasFrame_iff.1 hclose
    rcases hfine.2 b d a (hins'.trans heq) with ⟨hno, -⟩ | ⟨b', hno, -⟩
    · cases hno
    · cases hno
  rw [hins, hasFrame_append, hasFrame_append, hasFrame_singleton, hasFrame_singleton] at herr
  refine ⟨?_, ?_, ?_⟩
  · rintro rfl hdata
    -- a `Read` that takes everything
    have hbuf : st.rxBuf = s.1.rxBuf ++ data := by
      rw [← hst, Stream.rxBuf_dispatch data (by decide), if_pos rfl]
    have hne : st.rxBuf ≠ [] := by simp [hbuf, hdata]
    have hread : st.read st.rxBuf.length = some (.data st.rxBuf, { st with rxBuf := [] }) := by
      simp [Stream.read, hne]
    have hfine := fine_read_of_ends (s := (st, c)) after hall ht hclosing' hread hrest
    have hreset : ¬HasFrame flagRESET before := fun hreset => hne (hfine.1 (by simp [hins, hreset]))
    refine ⟨hreset, fun hclose => ?_⟩
    obtain ⟨b, d, a, rfl⟩ := hasFrame_iff.1 hclose
    have hbytes := htold.bytes (by rw [hins, hasFrame_append, hasFrame_singleton, not_or]; exact ⟨hreset, by decide⟩)
    rcases hfine.2 b d (a ++ [.frame flagDATA data]) (by simp [hins]) with ⟨hno, -⟩ | ⟨b', hb', -, hprefix⟩
    · cases hno
    · cases hb'
      rw [hbytes, hins] at hprefix
      have hlen := hprefix.length_le
      have hpos := List.length_pos_iff.2 hdata
      simp only [dataOf_append, dataOf_singleton, Input.data, if_true, List.length_append] at hlen
      omega
  · rintro rfl hreset
    exact herr (.inl hreset) (.inr rfl)
  · rintro rfl hclose
    exact herr (.inr rfl) (.inl hclose)

theorem inOrder_write_of_ends {b : List Byte}
    (hall : ∀ s : Stream γ × Calls, (streamSystem id label).Reach anyStep s →
      inputsOf s.2.log = before ++ .write b :: after → s.2.Ends)
    (hs : (streamSystem id label).Reach anyStep s) (hclosing : s.2.closing = false)
    (hbefore : inputsOf s.2.log = before) : (Input.write b).InOrder before := by
  intro hb hclose
  have hreleased : s.2.released = true := by
    have hcall := (told_reach hs).close.1 (by rw [hbefore]; exact hclose)
    simpa [hclosing] using hcall
  let w : Writing := ⟨b.length, b, s.2.released⟩
  let c : Calls := { s.2.add (.input (.write b)) with writing := s.2.writing ++ [w] }
  have hcall : (streamSystem id label).step s (.call (.write b)) (s.1, c) := by
    show some (s.1, s.2.write b) = _
    simp only [Calls.write, if_neg hb]
    rfl
  have hsend : c.next s.1 (.send s.2.writing.length true) =
      some (s.1, c.send s.1 s.2.writing.length w true) := by
    simp [Calls.next, c]
  have hlog : (c.send s.1 s.2.writing.length w true).closing = false ∧ (c.send s.1 s.2.writing.length w true).log =
      c.log ++ [.sent ⟨s.1.id, flagDATA, b.take maxDatagramPayload⟩ s.2.released] := by
    unfold Calls.send
    simp only [if_true]
    split <;> exact ⟨hclosing, rfl⟩
  have hfine := fine_of_ends (s := (s.1, c)) after hall (hs.step trivial hcall) hsend hlog.1 hlog.2 rfl
    (by simp [c, Calls.add, hbefore])
  cases hreleased.symm.trans (hfine rfl)

end Runs

/-- The stream ends well, whatever calls of `Read` there are and however all calls are scheduled, if and only if the
inputs are in order. -/
theorem ends_iff (id : Nat) (label : γ) (ins : List Input) :
    (∀ s : Stream γ × Calls, (streamSystem id label).Reach anyStep s → inputsOf s.2.log = ins → s.2.Ends) ↔
      Ordered ins := by
  constructor
  · intro hall before i after hins
    have hstart : (streamSystem id label).Reach anyStep (newStream id label, Calls.start) := .init rfl
    obtain ⟨s, hs⟩ := exists_runOf id label (s := (newStream id label, Calls.start)) rfl before
    obtain ⟨events, hlog, hevents⟩ := hs.log
    have hbefore : inputsOf s.2.log = before := by
      rw [hlog, ← hevents]
      rfl
    subst hins
    cases i with
    | frame flags data => exact inOrder_frame_of_ends hall (hstart.steps hs.steps) hs.closing hbefore
    | write b => exact inOrder_write_of_ends hall (hstart.steps hs.steps) hs.closing hbefore
    | close => trivial
  · rintro hord s hs rfl
    exact ⟨(told_reach hs).fine hord, (told_reach hs).waiting⟩

def dataAfterReset : List StreamAct := [.call (.frame flagRESET []), .call (.frame flagDATA [7]), .read 1]

def dataAfterClose : List StreamAct := [.call (.frame flagCLOSE []), .read 1, .call (.frame flagDATA [7]), .read 1]

def writeAfterClose : List StreamAct := [.call .close, .closeReturns true, .call (.write [7]), .send 0 true]

/-- After a RESET a byte is read, and after a CLOSE one follows `io.EOF`; and a `Write` after `Close` is sent. -/
theorem ends_too_late :
    (∃ s : Stream Unit × Calls, (streamSystem 1000 ()).Reach anyStep s ∧ ¬s.2.Ends ∧
        s.2.log = [.input (.frame flagRESET []), .input (.frame flagDATA [7]), .read (.data [7])]) ∧
      (∃ s : Stream Unit × Calls, (streamSystem 1000 ()).Reach anyStep s ∧ ¬s.2.Ends ∧
        s.2.log = [.input (.frame flagCLOSE []), .read .eof, .input (.frame flagDATA [7]), .read (.data [7])]) ∧
      ∃ s : Stream Unit × Calls, (streamSystem 1000 ()).Reach anyStep s ∧ ¬s.2.Ends ∧
        s.2.log = [.input .close, .sent ⟨1000, flagCLOSE, []⟩ false, .input (.write [7]),
          .sent ⟨1000, flagDATA, [7]⟩ true] := by
  refine ⟨?_, ?_, ?_⟩
  · refine ⟨_, ⟨_, rfl, exec_steps (show exec _ _ dataAfterReset = _ from rfl) (execMeets_anyStep _ _ _)⟩, fun h => ?_, rfl⟩
    cases (h.fine [.input (.frame flagRESET []), .input (.frame flagDATA [7])] (.read (.data [7])) [] rfl).1
      ⟨[], by decide⟩
  · refine ⟨_, ⟨_, rfl, exec_steps (show exec _ _ dataAfterClose = _ from rfl) (execMeets_anyStep _ _ _)⟩, fun h => ?_, rfl⟩
    rcases (h.fine [.input (.frame flagCLOSE []), .read .eof, .input (.frame flagDATA [7])] (.read (.data [7])) []
      rfl).2 [] [] [.frame flagDATA [7]] rfl with ⟨hno, -⟩ | ⟨-, -, hno, -⟩
    · cases hno
    · exact hno rfl
  · refine ⟨_, ⟨_, rfl, exec_steps (show exec _ _ writeAfterClose = _ from rfl) (execMeets_anyStep _ _ _)⟩, fun h => ?_, rfl⟩
    cases h.fine [.input .close, .sent ⟨1000, flagCLOSE, []⟩ false, .input (.write [7])]
      (.sent ⟨1000, flagDATA, [7]⟩ true) [] rfl rfl

end Libp2px.Iroh
