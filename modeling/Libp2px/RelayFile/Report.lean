import Libp2px.RelayFile.InStep

/-!
# Failures that the receiver reports

What becomes of the reason of a failure.  `HandleFileStream` sends it in a REJECT frame, which `readJSONFrame` does not
read: it only says that the type is not the expected one.  `receiveLoop` sends it in an ERROR frame, but marshals it
twice, so the payload is a string and not an object, and `readJSONFrame` finds no reason in it.  Where `SendFile` waits
for an ACK it takes every error for a broken stream and opens another one, as often as the receiver fails.
-/

namespace Libp2px.RelayFile

open Transition

/-- The JSON encoder on the struct with the reason, and on a slice of bytes, which becomes a string. `reason` is what
is found in a payload; the error of the decoder is ignored there. -/
structure Reasons where
  marshal : String → List Byte
  marshalBytes : List Byte → List Byte
  reason : List Byte → String
  /-- the error for the payload of an expected frame -/
  unmarshal : Byte → List Byte → Option String
  reason_marshal : ∀ r, reason (marshal r) = r
  reason_marshalBytes : ∀ b, reason (marshalBytes b) = ""

namespace Reasons

variable (m : Reasons)

/-- `frameWrite(s, frameTypeReject, mustJSON(…))`. -/
def rejectFrame (r : String) : Frame := ⟨frameTypeReject, m.marshal r⟩

/-- `writeJSONFrame(s, frameTypeError, mustJSON(…))`. -/
def errorFrame (r : String) : Frame := ⟨frameTypeError, m.marshalBytes (m.marshal r)⟩

def failureFrame (r : String) : Reply → Option Frame
  | .reject => some (m.rejectFrame r)
  | .error _ => some (m.errorFrame r)
  | _ => none

/-- The error of `readJSONFrame` for a frame that was read. -/
def readJSONFrame (f : Frame) (expectedType : Byte) : Option String :=
  if f.typ = frameTypeError then some ("remote error: " ++ m.reason f.payload)
  else if f.typ = frameTypeCancel then some ("remote cancelled: " ++ m.reason f.payload)
  else if f.typ ≠ expectedType then
    some ("unexpected frame type " ++ toString f.typ.toNat ++ ", want " ++ toString expectedType.toNat)
  else m.unmarshal expectedType f.payload

/-- The error that `SendFile` returns when it reads the frame.  Where it waits for an ACK it drops the error. -/
def returned (f : Frame) : SendStage → Option String
  | .accept => (m.readJSONFrame f frameTypeAccept).map ("read accept: " ++ ·)
  | .done => (m.readJSONFrame f frameTypeDone).map ("read done: " ++ ·)
  | _ => none

theorem readJSONFrame_errorFrame (r : String) (expectedType : Byte) :
    m.readJSONFrame (m.errorFrame r) expectedType = some "remote error: " := by
  unfold readJSONFrame errorFrame
  rw [if_pos rfl, m.reason_marshalBytes]
  rfl

theorem readJSONFrame_rejectFrame (r : String) {expectedType : Byte} (h : frameTypeReject ≠ expectedType) :
    m.readJSONFrame (m.rejectFrame r) expectedType =
      some ("unexpected frame type " ++ toString frameTypeReject.toNat ++ ", want " ++ toString expectedType.toNat) := by
  have herror : frameTypeReject ≠ frameTypeError := by decide
  have hcancel : frameTypeReject ≠ frameTypeCancel := by decide
  unfold readJSONFrame rejectFrame
  rw [if_neg herror, if_neg hcancel, if_pos h]

end Reasons

/-- What the error of `SendFile` says of a failure, whatever the reason was. -/
def failureText : SendStage → Reply → String
  | .accept, .reject => "read accept: unexpected frame type 2, want 1"
  | .accept, _ => "read accept: remote error: "
  | .done, .reject => "read done: unexpected frame type 2, want 6"
  | _, _ => "read done: remote error: "

theorem Reasons.returned_eq (m : Reasons) {r : String} {reply : Reply} {f : Frame}
    (hf : m.failureFrame r reply = some f) {stage : SendStage} (hstage : stage = .accept ∨ stage = .done) :
    m.returned f stage = some (failureText stage reply) := by
  have haccept : m.returned f .accept = (m.readJSONFrame f frameTypeAccept).map ("read accept: " ++ ·) := rfl
  have hdone : m.returned f .done = (m.readJSONFrame f frameTypeDone).map ("read done: " ++ ·) := rfl
  cases reply with
  | reject =>
    cases hf
    rcases hstage with rfl | rfl
    · rw [haccept, m.readJSONFrame_rejectFrame r (by decide)]
      rfl
    · rw [hdone, m.readJSONFrame_rejectFrame r (by decide)]
      rfl
  | error why =>
    cases hf
    rcases hstage with rfl | rfl
    · rw [haccept, m.readJSONFrame_errorFrame]
      rfl
    · rw [hdone, m.readJSONFrame_errorFrame]
      rfl
  | accept _ | ack _ | done => cases hf

namespace Transfer

variable {env : Env} {src : Source} {pay : Payloads env src} {t t' : Transfer}

def settled : SendStage → Bool
  | .returning _ | .returned _ => true
  | _ => false

theorem settled_next {mv : Move} (hs : settled t.sender.stage = true) (h : next pay t mv = some t') :
    settled t'.sender.stage = true ∧ t'.links.length = t.links.length := by
  cases mv with
  | readInit j =>
    obtain ⟨f, rest, toSender, init, -, -, rfl⟩ := readInit_cases h
    exact ⟨hs, List.length_set⟩
  | serve j a =>
    obtain ⟨l, s, rest, r, -, -, -, -, rfl⟩ := serve_cases h
    exact ⟨hs, List.length_set⟩
  | send a =>
    obtain ⟨sender, frames, hstep, hcases⟩ := send_cases h
    have hdelete : a = .delete ∧ settled sender.stage = true := by
      cases Sender.stepped hstep with
      | deleted => exact ⟨rfl, rfl⟩
      | connected hst | init hst | accepted _ hst | entered hst | chunk hst | acked _ hst | lost hst | fin hst | done hst
        | notConnected hst | notInit hst | notAccepted hst | notFin hst | notDone hst =>
        rw [hst] at hs
        cases hs
    obtain ⟨rfl, hsettled⟩ := hdelete
    rcases hcases with ⟨hconnect, -⟩ | ⟨-, -, rfl⟩ | ⟨-, l, rest, l', hlinks, -, rfl⟩
    · cases hconnect
    · exact ⟨hsettled, rfl⟩
    · exact ⟨hsettled, by rw [hlinks]; rfl⟩

theorem settled_steps {offset : Int} {fs : FS} (hs : settled t.sender.stage = true)
    (h : (system pay offset fs).Steps anyStep t t') : t'.links.length = t.links.length := by
  have hboth : settled t'.sender.stage = true ∧ t'.links.length = t.links.length := by
    refine h.induction (I := fun u => settled u.sender.stage = true ∧ u.links.length = t.links.length) ⟨hs, rfl⟩ ?_
    intro u mv v hu _ hstep
    obtain ⟨hv, hlen⟩ := settled_next hu.1 hstep
    exact ⟨hv, hlen.trans hu.2⟩
  exact hboth.2

theorem send_failure {m : Reasons} {a : SendAct} {reply : Reply} {r : String} {f : Frame} (hread : a.reads = some reply)
    (hf : m.failureFrame r reply = some f) (h : send pay t a = some t') :
    (t.sender.stage = .accept ∨ t.sender.stage = .done) ∧ t'.sender.stage = .returning false ∨
      t.sender.stage = .ack ∧ t'.sender.stage = .connect := by
  obtain ⟨sender, frames, hstep, hcases⟩ := send_cases h
  have hsender : t'.sender = sender := by
    rcases hcases with ⟨-, rfl⟩ | ⟨-, -, rfl⟩ | ⟨-, l, rest, l', -, -, rfl⟩ <;> rfl
  rw [hsender]
  cases Sender.stepped hstep with
  | accepted | acked | done =>
    cases hread
    cases hf
  | notAccepted hstage => exact .inl ⟨.inl hstage, rfl⟩
  | notDone hstage => exact .inl ⟨.inr hstage, rfl⟩
  | lost hstage => exact .inr ⟨hstage, rfl⟩
  | connected | init | entered | chunk | fin | deleted | notConnected | notInit | notFin => cases hread

/-- When `SendFile` reads a failure with the reason `r`, it returns an error that contains the reason and opens no
further stream, exactly if it does not wait for an ACK and the reason occurs in a text that does not depend on it. -/
theorem failure_ends_transfer_iff {m : Reasons} (offset : Int) (fs : FS) {a : SendAct} {reply : Reply} {r : String}
    {f : Frame} (hread : a.reads = some reply) (hf : m.failureFrame r reply = some f) (h : send pay t a = some t') :
    (t'.sender.stage = .returning false ∧ (∃ e, m.returned f t.sender.stage = some e ∧ r.toList <:+: e.toList) ∧
        ∀ u, (system pay offset fs).Steps anyStep t' u → u.links.length = t'.links.length) ↔
      t.sender.stage ≠ .ack ∧ r.toList <:+: (failureText t.sender.stage reply).toList := by
  rcases send_failure hread hf h with ⟨hstage, hreturns⟩ | ⟨hstage, hconnect⟩
  · have hnot : t.sender.stage ≠ .ack := by
      rcases hstage with hstage | hstage <;> rw [hstage] <;> decide
    rw [m.returned_eq hf hstage]
    constructor
    · rintro ⟨-, ⟨e, he, hr⟩, -⟩
      cases he
      exact ⟨hnot, hr⟩
    · rintro ⟨-, hr⟩
      exact ⟨hreturns, ⟨_, rfl, hr⟩, fun u hu => settled_steps (by rw [hreturns]; rfl) hu⟩
  · refine iff_of_false ?_ fun hno => hno.1 hstage
    rintro ⟨hreturns, -⟩
    cases hconnect.symm.trans hreturns

/-- Three bytes for each character, with a mark in front. -/
def characters : List Byte → List Char
  | a :: b :: c :: rest => Char.ofNat (BigEndian.decode [a, b, c]) :: characters rest
  | _ => []

theorem characters_encode (l : List Char) : characters (l.flatMap fun c => BigEndian.encode 3 c.toNat) = l := by
  induction l with
  | nil => rfl
  | cons c l ih =>
    have hlt : c.toNat < 256 ^ 3 := by
      have hvalid : c.toNat < 0xd800 ∨ 0xdfff < c.toNat ∧ c.toNat < 0x110000 := c.valid
      omega
    have hchar : Char.ofNat (BigEndian.decode (BigEndian.encode 3 c.toNat)) = c := by
      rw [BigEndian.decode_encode_of_lt hlt, Char.ofNat_toNat]
    rw [List.flatMap_cons]
    exact congrArg₂ List.cons hchar ih

def markedReasons : Reasons where
  marshal r := 0x7b#8 :: r.toList.flatMap fun c => BigEndian.encode 3 c.toNat
  marshalBytes b := 0x22#8 :: b
  reason payload := if payload.head? = some 0x7b#8 then .ofList (characters payload.tail) else ""
  unmarshal _ _ := none
  reason_marshal r := by
    rw [List.head?_cons, if_pos rfl, List.tail_cons, characters_encode, String.ofList_toList]
  reason_marshalBytes b := by
    rw [List.head?_cons, if_neg (by decide)]

def noFiles : FS := .ofFiles fun _ => none

/-- `SendFile` before it reads a REJECT: the receive directory could not be made. -/
def rejected : Transfer :=
  (exec (next bytePayloads) (start 0 noFiles)
    [.send (.connect true), .send (.writeInit true), .readInit 0, .serve 0 (.begin false true)]).getD (start 0 noFiles)

theorem reach_rejected : (system bytePayloads 0 noFiles).Reach anyStep rejected :=
  ⟨_, rfl, exec_steps_getD (by decide +kernel) (execMeets_anyStep _ _ _)⟩

theorem send_rejected : ∃ t', send bytePayloads rejected (.readAccept (some .reject)) = some t' :=
  Option.isSome_iff_exists.1 (by decide +kernel)

/-- A reason that occurs in the text for every REJECT. -/
theorem failure_ends_transfer_reject :
    ∃ t', (system bytePayloads 0 noFiles).Reach anyStep rejected ∧
      send bytePayloads rejected (.readAccept (some .reject)) = some t' ∧ t'.sender.stage = .returning false ∧
      (∃ e, markedReasons.returned (markedReasons.rejectFrame "frame type 2") rejected.sender.stage = some e ∧
        "frame type 2".toList <:+: e.toList) ∧
      ∀ u, (system bytePayloads 0 noFiles).Steps anyStep t' u → u.links.length = t'.links.length := by
  obtain ⟨t', ht'⟩ := send_rejected
  exact ⟨t', reach_rejected, ht', (failure_ends_transfer_iff 0 noFiles rfl rfl ht').2
    ⟨by decide +kernel, by decide +kernel⟩⟩

/-! ### A receiver that fails every time -/

theorem next_serve {snd : Sender} {l : Link} {ls : List Link} {fs fs' : FS} {dones : List (Option (List Byte))} {a : Act}
    {s s' : Session} {rest : List Frame} {replies : List Reply} (hs : l.session = some s) (hinput : l.input a = some rest)
    (hstep : s.step env fs a = some (fs', s', replies)) (hdone : .done ∉ replies) :
    next pay ⟨snd, l :: ls, fs, dones⟩ (.serve 0 a) =
      some ⟨snd, ⟨rest, l.toSender ++ replies, some s'⟩ :: ls, fs', dones⟩ := by
  unfold next serve
  simp only [List.getElem?_cons_zero, hs, hinput, hstep, if_neg hdone, List.set_cons_zero]

theorem next_send {snd snd' : Sender} {l l' : Link} {ls : List Link} {fs : FS} {dones : List (Option (List Byte))}
    {a : SendAct} {frames : List Frame} (hstep : Sender.step pay snd a = some (snd', frames)) (ha : a ≠ .connect true)
    (hread : l.read a.reads = some l') :
    next pay ⟨snd, l :: ls, fs, dones⟩ (.send a) =
      some ⟨snd', { l' with toReceiver := l'.toReceiver ++ frames } :: ls, fs, dones⟩ := by
  unfold next send
  simp only [hstep, if_neg ha, hread]

theorem failing_session (fs : FS) (offset : Int) :
    let s : Session := { init := byteSource.init byteEnv offset, bitmap := [0], stage := .opened none }
    let fs₁ := (fs.create (s.tmpPath byteEnv)).1
    let h : Handle := ⟨(fs.create (s.tmpPath byteEnv)).2, 0⟩
    ({ init := byteSource.init byteEnv offset } : Session).step byteEnv fs (.begin true false) = some (fs, s, []) ∧
      s.step byteEnv fs (.prepare true) = some (fs₁, { s with tmpFile := some h, stage := .ready }, []) ∧
      ({ s with tmpFile := some h, stage := .ready } : Session).step byteEnv fs₁ (.accept true) =
        some (fs₁, { s with tmpFile := some h, stage := .loop, registered := true }, [.accept 0]) ∧
      ∃ fs₂ fs₃, ({ s with tmpFile := some h, stage := .loop, registered := true } : Session).step byteEnv fs₁
          (.recv (byteSource.frame byteEnv 0) (.writeFails 0)) =
        some (fs₂, { s with tmpFile := some h, stage := .failed, registered := true }, [.error .write]) ∧
        ({ s with tmpFile := some h, stage := .failed, registered := true } : Session).step byteEnv fs₂ .cleanup =
          some (fs₃, { s with stage := .unregister, state := .error, registered := true }, []) ∧
        ({ s with stage := .unregister, state := .error, registered := true } : Session).step byteEnv fs₃ .delete =
          some (fs₃, { s with stage := .returned, state := .error }, []) := by
  intro s fs₁ h
  have hbegin : ({ init := byteSource.init byteEnv offset } : Session).begin byteEnv fs true false = (fs, s, []) := by
    unfold Session.begin
    have hmade : Session.makeBitmap (byteSource.init byteEnv offset).totalChunks = .ok [0] := rfl
    simp only [if_true, hmade, Bool.false_eq_true, and_false, if_false]
    rfl
  have hrecv : ({ s with tmpFile := some h, stage := .loop, registered := true } : Session).receive byteEnv fs₁
      (byteSource.frame byteEnv 0) (.writeFails 0) =
        (fs₁.write h.inode 0 [], { s with tmpFile := some h, stage := .failed, registered := true }, [.error .write]) := by
    have hnew : bitmapHas [0] (0 : Nat) = .ok false := rfl
    have hunpack := byteSource.frame_unpack byteEnv storing_lawful (j := 0) (by decide)
    rw [Session.receive_of_has fs₁ (.writeFails 0) rfl hunpack hnew]
    rfl
  have hprepare : s.prepare byteEnv fs none true = (fs₁, { s with tmpFile := some h, stage := .ready }, []) :=
    Session.prepare_created byteEnv fs (n := 1) rfl (Marks.replicate_zero 1)
  exact ⟨congrArg some hbegin, congrArg some hprepare, rfl, _, _, congrArg some hrecv, rfl, rfl⟩

theorem failing_sender (s : Sender) :
    ∃ s₁ s₂ s₃ s₄ s₅,
      Sender.step bytePayloads { s with stage := .accept } (.readAccept (some (.accept 0))) = some (s₁, []) ∧
      Sender.step bytePayloads s₁ (.enter false) = some (s₂, []) ∧
      Sender.step bytePayloads s₂ (.chunk .ok) = some (s₃, [byteSource.frame byteEnv 0]) ∧
      Sender.step bytePayloads s₃ (.chunk .ok) = some (s₄, []) ∧
      Sender.step bytePayloads s₄ (.readAck (some (.error .write))) = some (s₅, []) ∧ s₅.stage = .connect ∧ s₅.seq = 1 :=
  ⟨_, _, _, _, _, rfl, rfl, rfl, rfl, rfl, rfl, rfl⟩

theorem failing_stream {t : Transfer} {offset : Int} {fs : FS} (hs : t.sender.stage = .connect)
    (hseq : -2 ^ 63 ≤ t.sender.seq ∧ t.sender.seq < 2 ^ 63) :
    ∃ u l s, (system bytePayloads offset fs).Steps anyStep t u ∧ u.sender.stage = .connect ∧ u.sender.seq = 1 ∧
      u.links = l :: t.links ∧ l.session = some s ∧ s.state = .error := by
  obtain ⟨snd, ls, f, d⟩ := t
  simp only at hs hseq
  have hconnect : next bytePayloads ⟨snd, ls, f, d⟩ (.send (.connect true)) =
      some ⟨{ snd with offset := snd.seq, stage := .init }, {} :: ls, f, d⟩ := by
    unfold next send Sender.step
    simp only [hs]
    rfl
  have hinit : next bytePayloads ⟨{ snd with offset := snd.seq, stage := .init }, {} :: ls, f, d⟩ (.send (.writeInit true)) =
      some ⟨{ snd with offset := snd.seq, stage := .accept },
        ⟨[⟨frameTypeInit, bytePayloads.init snd.seq⟩], [], none⟩ :: ls, f, d⟩ :=
    next_send (a := .writeInit true) rfl (by simp) rfl
  have hread : next bytePayloads ⟨{ snd with offset := snd.seq, stage := .accept },
        ⟨[⟨frameTypeInit, bytePayloads.init snd.seq⟩], [], none⟩ :: ls, f, d⟩ (.readInit 0) =
      some ⟨{ snd with offset := snd.seq, stage := .accept },
        ⟨[], [], some { init := byteSource.init byteEnv snd.seq }⟩ :: ls, f, d⟩ := by
    unfold next readInit
    simp only [List.getElem?_cons_zero, if_true, bytePayloads.init_read snd.seq hseq.1 hseq.2, List.set_cons_zero]
  obtain ⟨hbegin, hprepare, haccept, fs₂, fs₃, hrecv, hcleanup, hdelete⟩ := failing_session f snd.seq
  obtain ⟨s₁, s₂, s₃, s₄, s₅, hsaccept, henter, hchunk, hlast, hack, hstage, hseq'⟩ :=
    failing_sender { snd with offset := snd.seq }
  refine ⟨_, _, _, System.Steps.single (P := anyStep) trivial hconnect |>.tail trivial hinit |>.tail trivial hread
    |>.tail trivial (next_serve rfl rfl hbegin List.not_mem_nil)
    |>.tail trivial (next_serve rfl rfl hprepare List.not_mem_nil)
    |>.tail trivial (next_serve rfl rfl haccept (by simp))
    |>.tail trivial (next_send hsaccept (by simp) rfl)
    |>.tail trivial (next_send henter (by simp) rfl)
    |>.tail trivial (next_send hchunk (by simp) rfl)
    |>.tail trivial (next_send hlast (by simp) rfl)
    |>.tail trivial (next_serve rfl rfl hrecv (by simp))
    |>.tail trivial (next_serve rfl rfl hcleanup List.not_mem_nil)
    |>.tail trivial (next_serve rfl rfl hdelete List.not_mem_nil)
    |>.tail trivial (next_send hack (by simp) rfl), hstage, hseq', rfl, rfl, rfl⟩

theorem retries_without_end (fs : FS) (n : Nat) :
    ∃ t, (system bytePayloads 0 fs).Reach anyStep t ∧ t.links.length = n ∧ t.sender.stage = .connect ∧
      (-2 ^ 63 ≤ t.sender.seq ∧ t.sender.seq < 2 ^ 63) ∧ ∀ l ∈ t.links, ∃ s, l.session = some s ∧ s.state = .error := by
  induction n with
  | zero =>
    have hzero : -2 ^ 63 ≤ (0 : Int) ∧ (0 : Int) < 2 ^ 63 := by decide
    exact ⟨start 0 fs, System.Reach.init rfl, rfl, rfl, hzero, fun l hl => absurd hl List.not_mem_nil⟩
  | succ n ih =>
    obtain ⟨t, hreach, hlen, hstage, hseq, herror⟩ := ih
    obtain ⟨u, l, s, hsteps, hstage', hseq', hlinks, hsession, hstate⟩ := failing_stream hstage hseq
    refine ⟨u, hreach.steps hsteps, ?_, hstage', ?_, ?_⟩
    · rw [hlinks, List.length_cons, hlen]
    · rw [hseq']
      decide
    · rw [hlinks, List.forall_mem_cons]
      exact ⟨⟨s, hsession, hstate⟩, herror⟩

/-- The reason of a REJECT is not in the error of `SendFile`; and a receiver that answers the chunk of every stream with
an ERROR makes `SendFile` open any number of streams. -/
theorem failure_reason_lost :
    (∃ t', (system bytePayloads 0 noFiles).Reach anyStep rejected ∧
        send bytePayloads rejected (.readAccept (some .reject)) = some t' ∧ t'.sender.stage = .returning false ∧
        markedReasons.returned (markedReasons.rejectFrame "permission denied") rejected.sender.stage =
          some "read accept: unexpected frame type 2, want 1") ∧
      ∀ n, ∃ t, (system bytePayloads 0 noFiles).Reach anyStep t ∧ t.links.length = n ∧
        ∀ l ∈ t.links, ∃ s, l.session = some s ∧ s.state = .error := by
  refine ⟨?_, fun n => ?_⟩
  · obtain ⟨t', ht'⟩ := send_rejected
    have hstage : rejected.sender.stage = .accept := by decide +kernel
    have hreject : markedReasons.failureFrame "permission denied" .reject =
        some (markedReasons.rejectFrame "permission denied") := rfl
    rcases send_failure rfl hreject ht' with ⟨haccept, hreturns⟩ | ⟨hack, -⟩
    · refine ⟨t', reach_rejected, ht', hreturns, ?_⟩
      rw [markedReasons.returned_eq hreject haccept, hstage]
      rfl
    · cases hstage.symm.trans hack
  · obtain ⟨t, hreach, hlen, -, -, herror⟩ := retries_without_end noFiles n
    exact ⟨t, hreach, hlen, herror⟩

end Transfer

end Libp2px.RelayFile
