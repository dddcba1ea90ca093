import Libp2px.Lib.Transition
import Libp2px.RelayFile.Serve

/-!
# A file transfer

`SendFile` on one side, `HandleFileStream` and `receiveLoop` on the other, and between them the streams that `SendFile`
opened.  A stream keeps the order of its frames and replies.  It may break at any point: a read or a write then fails,
which each side may do at any time.  A session whose stream was given up goes on with the frames that were sent to it.
-/

namespace Libp2px.RelayFile

open Chunks Transition

/-- A stream and the session that serves it (`none`: INIT has not been read). -/
structure Link where
  toReceiver : List Frame := []
  toSender : List Reply := []
  session : Option Session := none

def SendAct.reads : SendAct → Option Reply
  | readAccept r | readAck r | readDone r => r
  | _ => none

namespace Link

def read (l : Link) : Option Reply → Option Link
  | none => some l
  | some r =>
    match l.toSender with
    | r' :: rest => if r' = r then some { l with toSender := rest } else none
    | [] => none

def input (l : Link) : Act → Option (List Frame)
  | .recv f _ =>
    match l.toReceiver with
    | f' :: rest => if f' = f then some rest else none
    | [] => none
  | _ => some l.toReceiver

end Link

/-- The sender, its streams, newest first, and the receiver's file system. `dones`: what was at `savePath` when DONE
was sent. -/
structure Transfer where
  sender : Sender
  links : List Link := []
  fs : FS
  dones : List (Option (List Byte)) := []

/-- A step of the sender, the start of a session on a stream, or a step of its session. -/
inductive Move
  | send (a : SendAct)
  | readInit (j : Nat)
  | serve (j : Nat) (a : Act)

namespace Transfer

variable {env : Env} {src : Source} (pay : Payloads env src)

/-- A step of the sender: it writes to the newest stream and reads from it. -/
def send (t : Transfer) (a : SendAct) : Option Transfer :=
  match Sender.step pay t.sender a with
  | none => none
  | some (sender, frames) =>
    if a = .connect true then some { t with sender, links := {} :: t.links }
    else
      match t.links with
      | [] => some { t with sender }
      | l :: rest =>
        match l.read a.reads with
        | none => none
        | some l => some { t with sender, links := { l with toReceiver := l.toReceiver ++ frames } :: rest }

/-- `HandleFileStream` reads INIT. -/
def readInit (env : Env) (t : Transfer) (j : Nat) : Option Transfer :=
  match t.links[j]? with
  | some ⟨f :: rest, toSender, none⟩ =>
    if f.typ = frameTypeInit then
      match env.json.init f.payload with
      | some init => some { t with links := t.links.set j ⟨rest, toSender, some { init }⟩ }
      | none => none
    else none
  | _ => none

def serve (env : Env) (t : Transfer) (j : Nat) (a : Act) : Option Transfer :=
  match t.links[j]? with
  | some l =>
    match l.session, l.input a with
    | some s, some rest =>
      match s.step env t.fs a with
      | some (fs, s', replies) =>
        some { t with fs, links := t.links.set j ⟨rest, l.toSender ++ replies, some s'⟩
                      dones := if .done ∈ replies then t.dones ++ [fs.read (s.savePath env)] else t.dones }
      | none => none
    | _, _ => none
  | none => none

def next (t : Transfer) : Move → Option Transfer
  | .send a => send pay t a
  | .readInit j => readInit env t j
  | .serve j a => serve env t j a

/-- `SendFile` at its first INIT, which has the offset, and a file system. -/
def start (offset : Int) (fs : FS) : Transfer := { sender := { seq := offset }, fs }

/-- The runs from an offset; those of `SendFile` begin with zero. -/
def system (offset : Int) (fs : FS) : System Transfer Move := System.ofNext (· = start offset fs) (next pay)

/-! ### What a step does -/

variable {pay} {t t' : Transfer}

theorem send_cases {a : SendAct} (h : send pay t a = some t') :
    ∃ sender frames, Sender.step pay t.sender a = some (sender, frames) ∧
      ((a = .connect true ∧ t' = { t with sender, links := {} :: t.links }) ∨
        (a ≠ .connect true ∧ t.links = [] ∧ t' = { t with sender }) ∨
        (a ≠ .connect true ∧ ∃ l rest l', t.links = l :: rest ∧ l.read a.reads = some l' ∧
          t' = { t with sender, links := { l' with toReceiver := l'.toReceiver ++ frames } :: rest })) := by
  unfold send at h
  split at h
  · cases h
  · rename_i sender frames hstep
    refine ⟨sender, frames, hstep, ?_⟩
    split at h
    · rename_i ha
      exact .inl ⟨ha, (Option.some.inj h).symm⟩
    · rename_i ha
      split at h
      · rename_i hlinks
        exact .inr (.inl ⟨ha, hlinks, (Option.some.inj h).symm⟩)
      · rename_i l rest hlinks
        split at h
        · cases h
        · rename_i l' hread
          exact .inr (.inr ⟨ha, l, rest, l', hlinks, hread, (Option.some.inj h).symm⟩)

theorem readInit_cases {j : Nat} (h : readInit env t j = some t') :
    ∃ f rest toSender init, t.links[j]? = some ⟨f :: rest, toSender, none⟩ ∧ env.json.init f.payload = some init ∧
      t' = { t with links := t.links.set j ⟨rest, toSender, some { init }⟩ } := by
  unfold readInit at h
  split at h
  · rename_i f rest toSender hlink
    split at h
    · split at h
      · rename_i init hinit
        exact ⟨f, rest, toSender, init, hlink, hinit, (Option.some.inj h).symm⟩
      · cases h
    · cases h
  · cases h

theorem serve_cases {j : Nat} {a : Act} (h : serve env t j a = some t') :
    ∃ l s rest r, t.links[j]? = some l ∧ l.session = some s ∧ l.input a = some rest ∧ s.step env t.fs a = some r ∧
      t' = { t with fs := r.1, links := t.links.set j ⟨rest, l.toSender ++ r.2.2, some r.2.1⟩
                    dones := if .done ∈ r.2.2 then t.dones ++ [r.1.read (s.savePath env)] else t.dones } := by
  unfold serve at h
  split at h
  · rename_i l hlink
    split at h
    · rename_i s rest hsession hinput
      split at h
      · rename_i fs s' replies hstep
        exact ⟨l, s, rest, (fs, s', replies), hlink, hsession, hinput, hstep, (Option.some.inj h).symm⟩
      · cases h
    · cases h
  · cases h

end Transfer

end Libp2px.RelayFile
