import Libp2px.Lib.Transition
import Libp2px.RelayFile.Session

/-!
# Panics of the receiver

What a peer can do to `HandleFileStream` with the bytes of one stream: a bitmap that cannot be allocated, a chunk size
of zero for a file that is resumed, and a DATA frame with a sequence number at or below -64.  Nothing else panics.
-/

namespace Libp2px.RelayFile

open Transition

namespace Session

variable {env : Env} {fs : FS} {s : Session}

def panicked (s : Session) : Bool := s.stage matches .crashed _

theorem makeBitmap_cases {n : Int} (hn : n < 2 ^ 63) :
    (2 ^ 51 < n ∧ makeBitmap n = .error .makeslice) ∨ (n ≤ 2 ^ 51 ∧ ∃ bitmap, makeBitmap n = .ok bitmap) := by
  unfold makeBitmap wrap64
  by_cases hpos : n > 0
  · rw [if_pos hpos]
    by_cases hbig : n + 63 < 2 ^ 63
    · have hwrap : (n + 63).bmod (2 ^ 64) = n + 63 := Int.bmod_eq_of_le (by omega) (by omega)
      have hdiv : (n + 63).tdiv 64 = (n + 63) / 64 := Int.tdiv_eq_ediv_of_nonneg (by omega)
      simp only [hwrap, hdiv]
      by_cases hfit : n ≤ 2 ^ 51
      · right
        refine ⟨hfit, ?_⟩
        rw [if_neg (by unfold maxAlloc; omega)]
        exact ⟨_, rfl⟩
      · left
        refine ⟨by omega, ?_⟩
        rw [if_pos (by unfold maxAlloc; omega)]
    · left
      have hwrap : (n + 63).bmod (2 ^ 64) = n + 63 - 2 ^ 64 := by
        rw [Int.bmod_def]
        omega
      have hdiv : (n + 63 - 2 ^ 64).tdiv 64 < 0 := (tdiv_tmod_neg (by omega)).1 (by omega)
      refine ⟨by omega, ?_⟩
      simp only [hwrap]
      rw [if_pos (.inl hdiv)]
  · right
    rw [if_neg hpos]
    exact ⟨by omega, _, rfl⟩

theorem panicked_prepare (env : Env) (fs : FS) (i : String × Nat) (created : Bool) (hc : s.init.chunkSize = 0) :
    (s.prepare env fs (some i) created).2.1.panicked = true := by
  have hres : s.resume (fs.content i).length = .error .divideByZero := if_pos hc
  unfold prepare
  simp only [hres]
  rfl

/-- A frame that ends `receiveLoop`. -/
def ends (env : Env) (s : Session) (f : Frame) : Bool :=
  f.typ == frameTypeCancel || f.typ == frameTypeError || f.typ == frameTypeFin ||
    (f.typ == frameTypeData && !(unpackDataFrame env.zstd f.payload s.compression).isOk)

def low (env : Env) (s : Session) (f : Frame) : Bool :=
  f.typ == frameTypeData &&
    match unpackDataFrame env.zstd f.payload s.compression with
    | .ok (seq, _) => decide (seq ≤ -64)
    | .error _ => false

theorem stage_store (fs : FS) {seq : Int} (data : List Byte) {h : Handle} (io : DataIO) (hseq : -64 < seq)
    (hs : s.stage = .loop) (hf : s.tmpFile = some h) :
    ((store fs s seq data io).2.1.stage = .loop ∧ (store fs s seq data io).2.1.tmpFile.isSome = true) ∨
      io ≠ .ok ∧ (store fs s seq data io).2.1.stage = .failed := by
  have hset : ∃ bitmap, bitmapSet s.bitmap seq = .ok bitmap := by
    by_cases hneg : seq < 0
    · exact ⟨_, bitmapSet_neg s.bitmap hneg hseq⟩
    · obtain ⟨b, hb, -⟩ := bitmapSet_natCast s.bitmap seq.toNat
      rw [Int.toNat_of_nonneg (Int.not_lt.1 hneg)] at hb
      exact ⟨b, hb⟩
  obtain ⟨bitmap, hset⟩ := hset
  have hlast : ∀ (fs : FS) (d : Session), d.stage = .loop → d.tmpFile.isSome = true →
      ((acknowledge fs d io).2.1.stage = .loop ∧ (acknowledge fs d io).2.1.tmpFile.isSome = true) ∨
        io ≠ .ok ∧ (acknowledge fs d io).2.1.stage = .failed := by
    intro fs d hd hfile
    obtain ⟨-, -, htmp, hst | ⟨hio, hst⟩⟩ := acknowledge_frame fs d io
    · exact .inl ⟨hst.trans hd, by rw [htmp]; exact hfile⟩
    · exact .inr ⟨by rw [hio]; exact fun hno => (by cases hno), hst⟩
  unfold store
  rw [hf]
  cases io with
  | writeFails n => exact .inr ⟨fun hno => (by cases hno), rfl⟩
  | ok | ackFails =>
    simp only [hset]
    exact hlast _ _ hs rfl

theorem panicked_receive_low {f : Frame} (io : DataIO) (hlow : s.low env f = true) :
    (s.receive env fs f io).2.1.panicked = true := by
  unfold low at hlow
  rw [Bool.and_eq_true, beq_iff_eq] at hlow
  obtain ⟨htyp, hseq⟩ := hlow
  have hother : ¬(f.typ = frameTypeCancel ∨ f.typ = frameTypeError) := by
    rw [htyp]
    decide
  unfold receive receiveData
  rw [if_neg hother, if_pos htyp]
  split at hseq
  · rename_i seq data hunpack
    have hle : seq ≤ -64 := of_decide_eq_true hseq
    simp only [hunpack, bitmapHas_neg s.bitmap (by omega : seq < 0), if_pos hle]
    rfl
  · cases hseq

theorem stage_receive (fs : FS) {f : Frame} {h : Handle} (io : DataIO) (hs : s.stage = .loop) (hf : s.tmpFile = some h)
    (hlow : s.low env f = false) :
    ((s.receive env fs f io).2.1.stage = .loop ∧ (s.receive env fs f io).2.1.tmpFile.isSome = true ∧
        s.ends env f = false) ∨
      ((s.receive env fs f io).2.1.stage = .failed ∨ (s.receive env fs f io).2.1.stage = .closed) ∧
        (s.ends env f = true ∨ io ≠ .ok) := by
  unfold receive
  by_cases hstop : f.typ = frameTypeCancel ∨ f.typ = frameTypeError
  · rw [if_pos hstop]
    refine .inr ⟨.inl rfl, .inl ?_⟩
    unfold ends
    rcases hstop with hstop | hstop <;> simp [hstop]
  · rw [if_neg hstop]
    obtain ⟨hcancel, herror⟩ := not_or.1 hstop
    by_cases hdata : f.typ = frameTypeData
    · rw [if_pos hdata]
      have hfin : frameTypeData ≠ frameTypeFin := by decide
      have hends : s.ends env f = !(unpackDataFrame env.zstd f.payload s.compression).isOk := by
        unfold ends
        rw [beq_false_of_ne hcancel, beq_false_of_ne herror, hdata]
        simp [hfin]
      unfold receiveData
      cases hunpack : unpackDataFrame env.zstd f.payload s.compression with
      | error e =>
        refine .inr ⟨.inl rfl, .inl ?_⟩
        rw [hends, hunpack]
        rfl
      | ok r =>
        obtain ⟨seq, data⟩ := r
        have hends' : s.ends env f = false := by
          rw [hends, hunpack]
          rfl
        have hseq : -64 < seq := by
          unfold low at hlow
          rw [hdata, hunpack] at hlow
          simpa using hlow
        have hhas : ∃ b, bitmapHas s.bitmap seq = .ok b := by
          by_cases hneg : seq < 0
          · exact ⟨false, by rw [bitmapHas_neg _ hneg, if_neg (by omega)]⟩
          · have hnat := bitmapHas_natCast s.bitmap seq.toNat
            rw [Int.toNat_of_nonneg (Int.not_lt.1 hneg)] at hnat
            exact ⟨_, hnat⟩
        obtain ⟨b, hhas⟩ := hhas
        simp only [hhas]
        cases b with
        | true =>
          obtain ⟨-, -, htmp, hst | ⟨hio, hst⟩⟩ := acknowledge_frame fs s io
          · exact .inl ⟨hst.trans hs, by rw [htmp, hf]; rfl, hends'⟩
          · exact .inr ⟨.inl hst, .inr (by rw [hio]; exact fun hno => (by cases hno))⟩
        | false =>
          rcases stage_store fs data io hseq hs hf with ⟨hst, htmp⟩ | ⟨hio, hst⟩
          · exact .inl ⟨hst, htmp, hends'⟩
          · exact .inr ⟨.inl hst, .inr hio⟩
    · rw [if_neg hdata]
      by_cases hfin : f.typ = frameTypeFin
      · have hends : s.ends env f = true := by
          unfold ends
          simp [hfin]
        rw [if_pos hfin]
        split
        · exact .inr ⟨.inl rfl, .inl hends⟩
        · exact .inr ⟨.inr rfl, .inl hends⟩
      · rw [if_neg hfin]
        refine .inl ⟨hs, by rw [hf]; rfl, ?_⟩
        unfold ends
        simp [hcancel, herror, hdata, hfin]

end Session

/-! ### One stream -/

/-- `HandleFileStream` on the frames of a stream. -/
structure Receiving where
  fs : FS
  session : Session
  inbox : List Frame

namespace Receiving

/-- A step of the session; `frameRead` takes the next frame, and may fail at any time. -/
def next (env : Env) (r : Receiving) (a : Act) : Option Receiving :=
  match a with
  | .recv f io =>
    match r.inbox with
    | [] => none
    | g :: rest =>
      if f = g then (r.session.step env r.fs (.recv f io)).map fun x => ⟨x.1, x.2.1, rest⟩ else none
  | a => (r.session.step env r.fs a).map fun x => ⟨x.1, x.2.1, r.inbox⟩

/-- `HandleFileStream` on the bytes of a stream, once INIT has been read. -/
def start (env : Env) (fs : FS) (bytes : List Byte) : Option Receiving :=
  match (readFrames (bytes.length + 1) bytes).1 with
  | [] => none
  | f :: rest =>
    if f.typ = frameTypeInit then (env.json.init f.payload).map fun i => ⟨fs, { init := i }, rest⟩ else none

/-- The runs of `HandleFileStream` on the bytes of a stream. -/
def system (env : Env) (fs : FS) (bytes : List Byte) : System Receiving Act :=
  .ofNext (fun r => start env fs bytes = some r) (next env)

variable {env : Env} {r₀ r t : Receiving}

theorem next_recv {f : Frame} {io : DataIO} (h : r.next env (.recv f io) = some t) :
    r.inbox = f :: t.inbox ∧ r.session.stage = .loop ∧
      (t.fs, t.session) = ((r.session.receive env r.fs f io).1, (r.session.receive env r.fs f io).2.1) := by
  unfold next at h
  simp only at h
  split at h
  · cases h
  · rename_i g rest hinbox
    split at h
    · rename_i hfg
      obtain ⟨x, hx, rfl⟩ := Option.map_eq_some_iff.1 h
      cases Session.stepped hx with
      | received hst => exact ⟨by rw [hinbox, hfg], hst, rfl⟩
    · cases h

theorem next_other {a : Act} (ha : ∀ f io, a ≠ .recv f io) (h : r.next env a = some t) :
    t.inbox = r.inbox ∧ ∃ out, r.session.step env r.fs a = some (t.fs, t.session, out) := by
  unfold next at h
  split at h
  · exact absurd rfl (ha _ _)
  · obtain ⟨x, hx, rfl⟩ := Option.map_eq_some_iff.1 h
    exact ⟨rfl, x.2.2, hx⟩

def reading : Stage → Bool
  | .received | .opened _ | .ready | .loop => true
  | _ => false

theorem late_step {a : Act} {fs : FS} {s : Session} {x : FS × Session × List Reply} (h : s.step env fs a = some x)
    (ha : match a with
      | .begin _ _ | .prepare _ | .accept _ | .recv _ _ => False
      | _ => True) : reading x.2.1.stage = false ∧ x.2.1.panicked = false := by
  cases Session.stepped h with
  | noDir | noBitmap | opened | divides | resumed | created | notCreated | accepted | notAccepted | received =>
    exact ha.elim
  | hashEnd =>
    unfold Session.compare
    split <;> exact ⟨rfl, rfl⟩
  | _ => exact ⟨rfl, rfl⟩

/-- What holds while the stream does no harm: the frames taken so far have not ended the loop. -/
structure Unharmed (env : Env) (r₀ r : Receiving) : Prop where
  init : r.session.init = r₀.session.init
  alive : r.session.panicked = false
  fs : r.session.stage = .received → r.fs = r₀.fs
  file : ∀ i, r.session.stage = .opened (some i) →
    r₀.session.init.offset > 0 ∧ (r₀.fs.dir (r₀.session.tmpPath env)).isSome = true
  handle : r.session.stage = .ready ∨ r.session.stage = .loop → r.session.tmpFile.isSome = true
  inbox : reading r.session.stage = true → ∃ pre, r₀.inbox = pre ++ r.inbox ∧ ∀ g ∈ pre, r₀.session.ends env g = false

theorem Unharmed.leave (h : Unharmed env r₀ r) (hinit : t.session.init = r.session.init)
    (hst : reading t.session.stage = false) (halive : t.session.panicked = false) : Unharmed env r₀ t := by
  refine ⟨hinit.trans h.init, halive, fun hs => ?_, fun i hs => ?_, fun hs => ?_, fun hs => ?_⟩
  · rw [hs] at hst
    cases hst
  · rw [hs] at hst
    cases hst
  · rcases hs with hs | hs <;> rw [hs] at hst <;> cases hst
  · cases hst.symm.trans hs

theorem ends_congr (env : Env) {s d : Session} (h : d.init = s.init) (f : Frame) :
    d.ends env f = s.ends env f ∧ d.low env f = s.low env f ∧ d.tmpPath env = s.tmpPath env := by
  unfold Session.ends Session.low Session.compression Session.tmpPath Session.savePath
  rw [h]
  exact ⟨rfl, rfl, rfl⟩

/-- A stream that does no harm: the bitmap can be allocated, no file is resumed with a chunk size of zero, and no DATA
frame in the loop has a sequence number at or below -64. -/
def Harmless (env : Env) (r : Receiving) : Prop :=
  r.session.init.totalChunks ≤ 2 ^ 51 ∧
    (r.session.init.offset > 0 → (r.fs.dir (r.session.tmpPath env)).isSome = true → r.session.init.chunkSize ≠ 0) ∧
    ∀ pre f post, r.inbox = pre ++ f :: post → (∀ g ∈ pre, r.session.ends env g = false) → r.session.low env f = false

theorem Unharmed.recv {f : Frame} {io : DataIO} (hr : Harmless env r₀) (h : Unharmed env r₀ r)
    (hn : r.next env (.recv f io) = some t) : Unharmed env r₀ t := by
  obtain ⟨hinbox, hst, heq⟩ := next_recv hn
  obtain ⟨hfs, hses⟩ := Prod.mk.inj heq
  obtain ⟨hd, hhandle⟩ := Option.isSome_iff_exists.1 (h.handle (.inr hst))
  obtain ⟨pre, hpre, hends⟩ := h.inbox (by rw [hst]; rfl)
  obtain ⟨hce, hcl, -⟩ := ends_congr env h.init f
  have hlow : r.session.low env f = false := by
    rw [hcl]
    exact hr.2.2 pre f t.inbox (by rw [hpre, hinbox]) hends
  have hinit : t.session.init = r.session.init := by
    rw [hses]
    exact Session.init_receive env r.fs r.session f io
  rcases Session.stage_receive r.fs io hst hhandle hlow with ⟨hst', htmp, hnot⟩ | ⟨hst', -⟩
  · rw [← hses] at hst' htmp
    refine ⟨hinit.trans h.init, ?_, fun hs => ?_, fun i hs => ?_, fun _ => htmp, fun _ => ?_⟩
    · unfold Session.panicked
      rw [hst']
    · cases hst'.symm.trans hs
    · cases hst'.symm.trans hs
    · refine ⟨pre ++ [f], by rw [hpre, hinbox, List.append_assoc]; rfl, fun g hg => ?_⟩
      rcases List.mem_append.1 hg with hg | hg
      · exact hends g hg
      · rw [List.mem_singleton.1 hg, ← hce]
        exact hnot
  · rw [← hses] at hst'
    refine h.leave hinit ?_ ?_
    · rcases hst' with hst' | hst' <;> rw [hst'] <;> rfl
    · unfold Session.panicked
      rcases hst' with hst' | hst' <;> rw [hst']

theorem Unharmed.ready (h : Unharmed env r₀ r) (hinit : t.session.init = r.session.init)
    (hst : reading r.session.stage = true) (hready : t.session.stage = .ready ∨ t.session.stage = .loop)
    (hfile : t.session.tmpFile.isSome = true) (hinbox : t.inbox = r.inbox) : Unharmed env r₀ t := by
  refine ⟨hinit.trans h.init, ?_, fun hs => ?_, fun i hs => ?_, fun _ => hfile, fun _ => ?_⟩
  · unfold Session.panicked
    rcases hready with hs | hs <;> rw [hs]
  · rw [hs] at hready
    rcases hready with hno | hno <;> cases hno
  · rw [hs] at hready
    rcases hready with hno | hno <;> cases hno
  · rw [hinbox]
    exact h.inbox hst

theorem Unharmed.next {a : Act} (hr : Harmless env r₀) (hfit : r₀.session.init.totalChunks < 2 ^ 63)
    (h : Unharmed env r₀ r) (hn : r.next env a = some t) : Unharmed env r₀ t := by
  by_cases hrecv : ∃ f io, a = .recv f io
  · obtain ⟨f, io, rfl⟩ := hrecv
    exact h.recv hr hn
  obtain ⟨hinbox, out, hstep⟩ := next_other (fun f io heq => hrecv ⟨f, io, heq⟩) hn
  have hinit : t.session.init = r.session.init := Session.init_step hstep
  obtain ⟨fs, d, inbox⟩ := t
  cases a with
  | recv f io => exact absurd ⟨f, io, rfl⟩ hrecv
  | begin mkdir openable =>
    cases Session.stepped hstep with
    | noDir => exact h.leave hinit rfl rfl
    | noBitmap hst hb =>
      rcases Session.makeBitmap_cases (n := r.session.init.totalChunks) (by rw [h.init]; exact hfit) with
        ⟨hbig, -⟩ | ⟨-, bitmap, hbm⟩
      · have := hr.1
        rw [h.init] at hbig
        omega
      · cases hb.symm.trans hbm
    | opened hst hb =>
      have htmp := (ends_congr env h.init ⟨0, []⟩).2.2
      refine ⟨hinit.trans h.init, rfl, fun hs => ?_, fun i hs => ?_, fun hs => ?_, fun _ => ?_⟩
      · cases hs
      · have hfile := Stage.opened.inj hs
        split at hfile
        · rename_i hoff
          rw [htmp, h.fs hst] at hfile
          rw [h.init] at hoff
          exact ⟨hoff.1, by rw [hfile]; rfl⟩
        · cases hfile
      · rcases hs with hs | hs <;> cases hs
      · rw [hinbox]
        exact h.inbox (by rw [hst]; rfl)
  | prepare created =>
    cases Session.stepped hstep with
    | divides hst hc =>
      obtain ⟨hoff, hdir⟩ := h.file _ hst
      rw [h.init] at hc
      exact absurd hc (hr.2.1 hoff hdir)
    | resumed _ _ _ hst | created _ _ hst => exact h.ready hinit (by rw [hst]; rfl) (.inl rfl) rfl hinbox
    | notCreated => exact h.leave hinit rfl rfl
  | accept written =>
    cases Session.stepped hstep with
    | accepted hst => exact h.ready hinit (by rw [hst]; rfl) (.inr rfl) (h.handle (.inl hst)) hinbox
    | notAccepted => exact h.leave hinit rfl rfl
  | readError | openPart | hash | hashEnd | hashError | rename | finish | done | cleanup | delete =>
    obtain ⟨hread, halive⟩ := late_step hstep trivial
    exact h.leave hinit hread halive

/-! ### What a harmful stream does -/

theorem next_begin (env : Env) (mkdir openable : Bool) (hst : r.session.stage = .received) :
    r.next env (.begin mkdir openable) = some ⟨(r.session.begin env r.fs mkdir openable).1,
      (r.session.begin env r.fs mkdir openable).2.1, r.inbox⟩ := by
  unfold next Session.step
  rw [hst]
  rfl

theorem next_prepare (env : Env) (created : Bool) {file : Option (String × Nat)} (hst : r.session.stage = .opened file) :
    r.next env (.prepare created) = some ⟨(r.session.prepare env r.fs file created).1,
      (r.session.prepare env r.fs file created).2.1, r.inbox⟩ := by
  unfold next Session.step
  rw [hst]
  rfl

theorem next_accept (hst : r.session.stage = .ready) :
    r.next env (.accept true) = some ⟨r.fs, { r.session with stage := .loop, registered := true }, r.inbox⟩ := by
  unfold next Session.step
  rw [hst]
  rfl

theorem next_receive (env : Env) {f : Frame} {rest : List Frame} (io : DataIO) (hst : r.session.stage = .loop)
    (hinbox : r.inbox = f :: rest) :
    r.next env (.recv f io) =
      some ⟨(r.session.receive env r.fs f io).1, (r.session.receive env r.fs f io).2.1, rest⟩ := by
  unfold next
  simp only [hinbox, if_true]
  unfold Session.step
  rw [hst]
  rfl

variable {fs : FS} {bytes : List Byte}

theorem loop_reached (hr : (system env fs bytes).Reach anyStep r) (hst : r.session.stage = .received)
    (hchunks : r.session.init.totalChunks ≤ 2 ^ 51) :
    ∃ t, (system env fs bytes).Reach anyStep t ∧ t.session.stage = .loop ∧ t.session.tmpFile.isSome = true ∧
      t.session.init = r.session.init ∧ t.inbox = r.inbox := by
  rcases Session.makeBitmap_cases (n := r.session.init.totalChunks) (by omega) with ⟨hbig, -⟩ | ⟨-, bitmap, hbm⟩
  · omega
  -- no file is opened, so one is created
  have hbegin : r.session.begin env r.fs true false = (r.fs, { r.session with bitmap, stage := .opened none }, []) := by
    unfold Session.begin
    simp [hbm]
  obtain ⟨r₁, hr₁, hst₁, hinit₁, hin₁⟩ : ∃ r₁, (system env fs bytes).Reach anyStep r₁ ∧
      r₁.session.stage = .opened none ∧ r₁.session.init = r.session.init ∧ r₁.inbox = r.inbox := by
    have hn := next_begin env true false hst
    rw [hbegin] at hn
    exact ⟨_, hr.step trivial hn, rfl, rfl, rfl⟩
  obtain ⟨r₂, hr₂, hst₂, hfile₂, hinit₂, hin₂⟩ : ∃ r₂, (system env fs bytes).Reach anyStep r₂ ∧
      r₂.session.stage = .ready ∧ r₂.session.tmpFile.isSome = true ∧ r₂.session.init = r₁.session.init ∧
      r₂.inbox = r₁.inbox := by
    obtain ⟨k, cursor, hpos⟩ := Session.position_eq r₁.session (r₁.fs.create (r₁.session.tmpPath env)).2 0
    have hprep : r₁.session.prepare env r₁.fs none true = ((r₁.fs.create (r₁.session.tmpPath env)).1,
        { r₁.session with tmpFile := some ⟨(r₁.fs.create (r₁.session.tmpPath env)).2, cursor⟩
                          startSeq := k, lastAck := k, stage := .ready }, []) := by
      unfold Session.prepare
      simp only [hpos, if_true]
    have hn := next_prepare env true hst₁
    rw [hprep] at hn
    exact ⟨_, hr₁.step trivial hn, rfl, rfl, rfl, rfl⟩
  exact ⟨_, hr₂.step trivial (next_accept hst₂), rfl, hfile₂, hinit₂.trans hinit₁, hin₂.trans hin₁⟩

theorem panics_of_low {pre post : List Frame} {f : Frame} (hr : (system env fs bytes).Reach anyStep r)
    (hst : r.session.stage = .loop) (hfile : r.session.tmpFile.isSome = true) (hinbox : r.inbox = pre ++ f :: post)
    (hends : ∀ g ∈ pre, r.session.ends env g = false) (hlow : r.session.low env f = true) :
    ∃ t, (system env fs bytes).Reach anyStep t ∧ t.session.panicked = true := by
  induction pre generalizing r with
  | nil =>
    exact ⟨_, hr.step trivial (next_receive env .ok hst hinbox), Session.panicked_receive_low .ok hlow⟩
  | cons g pre ih =>
    have hreach := hr.step trivial (next_receive env .ok hst hinbox)
    obtain ⟨h, hh⟩ := Option.isSome_iff_exists.1 hfile
    have hg := hends g (List.mem_cons_self ..)
    by_cases hglow : r.session.low env g = true
    · exact ⟨_, hreach, Session.panicked_receive_low .ok hglow⟩
    · rcases Session.stage_receive r.fs .ok hst hh (Bool.eq_false_of_not_eq_true hglow) with
        ⟨hst', hfile', -⟩ | ⟨-, hbad | hbad⟩
      · have hinit := Session.init_receive env r.fs r.session g .ok
        refine ih hreach hst' hfile' rfl (fun g' hg' => ?_) ?_
        · rw [(ends_congr env hinit g').1]
          exact hends g' (List.mem_cons_of_mem _ hg')
        · rw [(ends_congr env hinit f).2.1]
          exact hlow
      · cases hg.symm.trans hbad
      · exact absurd rfl hbad

/-- `HandleFileStream` runs without a panic on the bytes of a stream exactly if the stream is harmless. -/
theorem runs_without_panic_iff (env : Env) (fs : FS) (bytes : List Byte) :
    (∀ r, (system env fs bytes).Reach anyStep r → r.session.panicked = false) ↔
      ∀ r, start env fs bytes = some r → Harmless env r := by
  have hstart : ∀ r, start env fs bytes = some r →
      r.session.stage = .received ∧ r.fs = fs ∧ r.session.init.totalChunks < 2 ^ 63 ∧ r.session.panicked = false := by
    intro r hr
    unfold start at hr
    split at hr
    · cases hr
    · split at hr
      · obtain ⟨i, hi, rfl⟩ := Option.map_eq_some_iff.1 hr
        exact ⟨rfl, rfl, (env.json.init_fits _ _ hi).2.2.1.2, rfl⟩
      · cases hr
  constructor
  · intro hsafe r hr
    obtain ⟨hst, -, hfit, -⟩ := hstart r hr
    have hreach : (system env fs bytes).Reach anyStep r := System.Reach.init hr
    have hchunks : r.session.init.totalChunks ≤ 2 ^ 51 := by
      rcases Session.makeBitmap_cases hfit with ⟨-, hbm⟩ | ⟨hle, -⟩
      · have hno := hsafe _ (hreach.step trivial (next_begin env true true hst))
        unfold Session.begin at hno
        simp only [hbm, if_true] at hno
        cases hno
      · exact hle
    refine ⟨hchunks, fun hoff hdir hzero => ?_, fun pre f post hinbox hends => ?_⟩
    · obtain ⟨i, hi⟩ := Option.isSome_iff_exists.1 hdir
      rcases Session.makeBitmap_cases hfit with ⟨hbig, -⟩ | ⟨-, bitmap, hbm⟩
      · omega
      have hbegin : r.session.begin env r.fs true true =
          (r.fs, { r.session with bitmap, stage := .opened (some i) }, []) := by
        unfold Session.begin
        simp [hbm, hoff, hi]
      have hn := next_begin env true true hst
      rw [hbegin] at hn
      have hr₁ := hreach.step trivial hn
      have hno := hsafe _ (hr₁.step trivial (next_prepare env true rfl))
      cases hno.symm.trans (Session.panicked_prepare env r.fs i true hzero)
    · by_contra hlow
      obtain ⟨r₁, hr₁, hst₁, hfile₁, hinit₁, hin₁⟩ := loop_reached hreach hst hchunks
      obtain ⟨t, ht, hp⟩ := panics_of_low hr₁ hst₁ hfile₁ (hin₁.trans hinbox)
        (fun g hg => by rw [(ends_congr env hinit₁ g).1]; exact hends g hg)
        (by rw [(ends_congr env hinit₁ f).2.1]; exact Bool.eq_true_of_not_eq_false hlow)
      cases (hsafe t ht).symm.trans hp
  · intro hharm r hr
    obtain ⟨r₀, hr₀, hrun⟩ := hr
    obtain ⟨hst, -, hfit, halive⟩ := hstart r₀ hr₀
    have hinv : Unharmed env r₀ r := by
      refine hrun.induction (I := Unharmed env r₀) ?_ fun _ a _ h _ hn => h.next (hharm r₀ hr₀) hfit hn
      refine ⟨rfl, halive, fun _ => rfl, fun i hs => ?_, fun hs => ?_, fun _ => ⟨[], rfl, fun g hg => (by cases hg)⟩⟩
      · cases hst.symm.trans hs
      · rcases hs with hs | hs <;> cases hst.symm.trans hs
    exact hinv.alive

def peerEnv (i : Init) (hi : i.Fits) : Env where
  zstd := storing
  json := { init := fun _ => some i, finChecksum := fun _ => .other "", init_fits := fun _ _ h => Option.some.inj h ▸ hi }
  sha256 := fun _ => ""
  finalPath := id

def resumeInit (chunk total : Int) : Init :=
  { name := "a", size := 1, chunkSize := chunk, totalChunks := total, checksum := .other "", offset := 1
    compression := "none" }

def onePart : FS := .ofFiles fun p => if p = "a.relayfile.part" then some [7] else none

/-- A peer crashes the receiver: with a chunk size of zero, with the sequence number -64, and with too many chunks. -/
theorem peer_crashes_receiver :
    (∃ r, (system (peerEnv (resumeInit 0 1) (by decide)) onePart (frameWrite ⟨frameTypeInit, []⟩)).Reach anyStep r ∧
        r.session.stage = .crashed .divideByZero) ∧
      (∃ r, (system (peerEnv (resumeInit 1 1) (by decide)) onePart (frameWrite ⟨frameTypeInit, []⟩ ++
          frameWrite ⟨frameTypeData, packDataFrame storing (-64) [7] .none⟩)).Reach anyStep r ∧
        r.session.stage = .crashed .indexOutOfRange) ∧
      ∃ r, (system (peerEnv (resumeInit 1 (2 ^ 63 - 1)) (by decide)) onePart (frameWrite ⟨frameTypeInit, []⟩)).Reach
          anyStep r ∧ r.session.stage = .crashed .makeslice := by
  refine ⟨⟨_, ⟨_, rfl, exec_steps (show exec _ _ [.begin true true, .prepare true] = some _ from rfl)
      (execMeets_anyStep _ _ _)⟩, rfl⟩,
    ⟨_, ⟨_, rfl, exec_steps (show exec _ _ [.begin true true, .prepare true, .accept true,
      .recv ⟨frameTypeData, packDataFrame storing (-64) [7] .none⟩ .ok] = some _ from rfl) (execMeets_anyStep _ _ _)⟩, rfl⟩,
    ⟨_, ⟨_, rfl, exec_steps (show exec _ _ [.begin true true] = some _ from rfl) (execMeets_anyStep _ _ _)⟩, rfl⟩⟩

end Receiving

end Libp2px.RelayFile
