import Libp2px.RelayFile.InStep

/-!
# Agreement on the file

When `SendFile` returns without an error, the file at `savePath` was the source when DONE was sent.  Streams may have
broken, sessions of broken streams may still write to the same `.part` file or remove it, and the file may have holes.
The argument: every session writes a chunk at its place only, so a byte that was read for the checksum and was right
stays right; the checksum says that all of them were; and only the last stream carries FIN.
-/

namespace Libp2px.RelayFile

open Chunks Transition Session

variable {env : Env} {src : Source} {pay : Payloads env src}

namespace Source

def savePath (env : Env) (src : Source) : String := env.finalPath src.name

def tmpPath (env : Env) (src : Source) : String := src.savePath env ++ ".relayfile.part"

theorem tmpPath_ne_savePath (env : Env) (src : Source) : src.tmpPath env ≠ src.savePath env := by
  intro h
  have hlen := congrArg String.length h
  rw [tmpPath, String.length_append] at hlen
  exact absurd hlen (by simp)

theorem getElem?_chunk (src : Source) (j m p : Nat) (hle : j * chunkSize ≤ p)
    (hlt : p < j * chunkSize + ((src.chunk j).take m).length) :
    ((src.chunk j).take m)[p - j * chunkSize]? = src.data[p]? := by
  have hlen : ((src.chunk j).take m).length ≤ m ∧ ((src.chunk j).take m).length ≤ chunkSize := by
    unfold chunk Chunks.chunk
    simp only [List.length_take]
    omega
  rw [List.getElem?_take_of_lt (by omega)]
  unfold chunk Chunks.chunk
  rw [List.getElem?_take_of_lt (by omega), List.getElem?_drop, Nat.add_sub_cancel' hle]

end Source

/-- What an accepted session can do to the files: nothing, remove `.part`, or write (a part of) a chunk at its place.
-/
def Effect (env : Env) (src : Source) (fs fs' : FS) : Prop :=
  fs' = fs ∨ fs' = fs.remove (src.tmpPath env) ∨
    ∃ i j m, j < src.totalChunks ∧ fs' = fs.write i (j * chunkSize) ((src.chunk j).take m)

/-- What a session knows of the file that it verifies. -/
def Checked (env : Env) (src : Source) (fs : FS) (s : Session) : Prop :=
  match s.stage with
  | .verifying file got => got.length ≤ (fs.content file).length ∧
      (∀ p < got.length, got[p]? = src.data[p]? → (fs.content file)[p]? = src.data[p]?) ∧
      (fs.dir (src.tmpPath env) = some file ∨ fs.dir (src.tmpPath env) = none)
  | .verified => ∃ file, fs.content file = src.data ∧
      (fs.dir (src.tmpPath env) = some file ∨ fs.dir (src.tmpPath env) = none)
  | .renamed | .finished => ∃ file, fs.content file = src.data ∧ fs.dir (src.savePath env) = some file
  | _ => True

theorem overwrite_right (src : Source) {content : List Byte} {p : Nat} (hp : p < content.length)
    (h : content[p]? = src.data[p]?) (j m : Nat) :
    (Files.overwrite content (j * chunkSize) ((src.chunk j).take m))[p]? = src.data[p]? := by
  rw [Files.getElem?_overwrite hp]
  split
  · rename_i hin
    exact src.getElem?_chunk j m p hin.1 hin.2
  · exact h

theorem overwrite_data (src : Source) {j : Nat} (hj : j < src.totalChunks) (m : Nat) :
    Files.overwrite src.data (j * chunkSize) ((src.chunk j).take m) = src.data := by
  have hend := (lt_count_iff (by decide)).1 hj
  have hlen := Files.length_overwrite_le src.data (j * chunkSize) ((src.chunk j).take m)
  have hlen' : (Files.overwrite src.data (j * chunkSize) ((src.chunk j).take m)).length ≤ src.data.length := by
    refine Files.length_overwrite_le_of_le le_rfl ?_
    have hchunk : (src.chunk j).length = _ := length_chunk chunkSize src.data j
    rw [List.length_take]
    omega
  refine List.ext_getElem? fun p => ?_
  rcases Nat.lt_or_ge p src.data.length with hlt | hge
  · exact overwrite_right src hlt rfl j m
  · rw [List.getElem?_eq_none (by omega), List.getElem?_eq_none hge]

theorem Checked.remove {fs : FS} {s : Session} (h : Checked env src fs s) :
    Checked env src (fs.remove (src.tmpPath env)) s := by
  have hgone : (fs.remove (src.tmpPath env)).dir (src.tmpPath env) = none := Function.update_self ..
  have hstays : (fs.remove (src.tmpPath env)).dir (src.savePath env) = fs.dir (src.savePath env) :=
    Function.update_of_ne (src.tmpPath_ne_savePath env).symm ..
  unfold Checked at h ⊢
  split at h
  · exact ⟨h.1, h.2.1, .inr hgone⟩
  · obtain ⟨file, hcontent, -⟩ := h
    exact ⟨file, hcontent, .inr hgone⟩
  · obtain ⟨file, hcontent, hdir⟩ := h
    exact ⟨file, hcontent, hstays.trans hdir⟩
  · obtain ⟨file, hcontent, hdir⟩ := h
    exact ⟨file, hcontent, hstays.trans hdir⟩
  · trivial

theorem Checked.write {fs : FS} {s : Session} (h : Checked env src fs s) (i : String × Nat) {j : Nat}
    (hj : j < src.totalChunks) (m : Nat) :
    Checked env src (fs.write i (j * chunkSize) ((src.chunk j).take m)) s := by
  have hother : ∀ file, file ≠ i →
      (fs.write i (j * chunkSize) ((src.chunk j).take m)).content file = fs.content file :=
    fun file hne => Function.update_of_ne hne ..
  have hself := Files.System.content_write fs i (j * chunkSize) ((src.chunk j).take m)
  have hdata : ∀ file, fs.content file = src.data →
      (fs.write i (j * chunkSize) ((src.chunk j).take m)).content file = src.data := by
    intro file hcontent
    by_cases hfile : file = i
    · subst hfile
      rw [hself, hcontent, overwrite_data src hj]
    · rw [hother file hfile, hcontent]
  unfold Checked at h ⊢
  split at h
  · rename_i file got hstage
    obtain ⟨hlen, hright, hdir⟩ := h
    by_cases hfile : file = i
    · subst hfile
      have hlen' := Files.length_overwrite_le (fs.content file) (j * chunkSize) ((src.chunk j).take m)
      rw [hself]
      exact ⟨hlen.trans hlen', fun p hp hgot => overwrite_right src (by omega) (hright p hp hgot) j m, hdir⟩
    · rw [hother file hfile]
      exact ⟨hlen, hright, hdir⟩
  · obtain ⟨file, hcontent, hdir⟩ := h
    exact ⟨file, hdata file hcontent, hdir⟩
  · obtain ⟨file, hcontent, hdir⟩ := h
    exact ⟨file, hdata file hcontent, hdir⟩
  · obtain ⟨file, hcontent, hdir⟩ := h
    exact ⟨file, hdata file hcontent, hdir⟩
  · trivial

theorem Checked.effect {fs fs' : FS} {s : Session} (h : Checked env src fs s) (he : Effect env src fs fs') :
    Checked env src fs' s := by
  rcases he with rfl | rfl | ⟨i, j, m, hj, rfl⟩
  · exact h
  · exact h.remove
  · exact h.write i hj m

/-! ### The steps of a session after FIN -/

namespace Session

theorem Ours.savePath {s : Session} (h : s.Ours env src) : s.savePath env = src.savePath env := by
  obtain ⟨offset, hinit⟩ := h
  unfold Session.savePath Source.savePath
  rw [hinit]
  rfl

theorem Ours.tmpPath {s : Session} (h : s.Ours env src) : s.tmpPath env = src.tmpPath env := by
  unfold Session.tmpPath Source.tmpPath
  rw [h.savePath]

theorem Ours.checksum {s : Session} (h : s.Ours env src) : s.init.checksum = src.checksum env := by
  obtain ⟨offset, hinit⟩ := h
  rw [hinit]
  rfl

end Session

variable {s : Session}

theorem Checked.compare (hsha : Function.Injective env.sha256) {fs : FS} (hs : s.Ours env src)
    {file : String × Nat} {got : List Byte} (hstage : s.stage = .verifying file got) (h : Checked env src fs s)
    (hend : (fs.content file).length ≤ got.length) :
    (s.compare env fs got).1 = fs ∧ Checked env src fs (s.compare env fs got).2.1 ∧
      ((s.compare env fs got).2.1.stage.closing = true ∨ (s.compare env fs got).2.1.stage.dead = true) ∧
      Errors (s.compare env fs got).2.2 := by
  unfold Checked at h
  rw [hstage] at h
  obtain ⟨hlen, hright, hdir⟩ := h
  unfold Session.compare
  split
  · rename_i hsum
    rw [hs.checksum] at hsum
    have hgot : got = src.data := hsha (Checksum.sha256.inj hsum).symm
    refine ⟨rfl, ⟨file, ?_, hdir⟩, .inl rfl, by simp [Errors]⟩
    refine List.ext_getElem? fun p => ?_
    rcases Nat.lt_or_ge p got.length with hlt | hge
    · exact hright p hlt (by rw [hgot])
    · rw [List.getElem?_eq_none (by omega), List.getElem?_eq_none (by rw [← hgot]; exact hge)]
  · exact ⟨rfl, trivial, .inr rfl, by simp [Errors]⟩

theorem Checked.step (hsha : Function.Injective env.sha256) {fs : FS} (h : Checked env src fs s)
    (hs : s.Ours env src) (hclosing : s.stage.closing = true) {a : Act} {r : FS × Session × List Reply}
    (hstep : s.step env fs a = some r) :
    Checked env src r.1 r.2.1 ∧ (r.2.1.stage.closing = true ∨ r.2.1.stage.dead = true) ∧
      (Errors r.2.2 ∨ r.2.2 = [.done] ∧ r.1.read (src.savePath env) = some src.data) := by
  have hfits := fits_of_step hstep
  have hquiet : Errors [] := by simp [Errors]
  cases stepped hstep with
  | verifying _ hdir =>
    rw [hs.tmpPath] at hdir
    exact ⟨⟨Nat.zero_le _, fun p hp => absurd hp (Nat.not_lt_zero p), .inl hdir⟩, .inl rfl, .inl hquiet⟩
  | @hashed file got m hstage =>
    unfold Checked at h
    rw [hstage] at h
    obtain ⟨hlen, hright, hdir⟩ := h
    refine ⟨⟨?_, fun p hp hgot => ?_, hdir⟩, .inl rfl, .inl hquiet⟩
    · simp only [List.length_append, List.length_take, List.length_drop]
      omega
    · rcases Nat.lt_or_ge p got.length with hlt | hge
      · rw [List.getElem?_append_left hlt] at hgot
        exact hright p hlt hgot
      · have hlt : p - got.length < m := by
          rw [List.length_append, List.length_take] at hp
          omega
        rw [List.getElem?_append_right hge, List.getElem?_take_of_lt hlt, List.getElem?_drop,
          Nat.add_sub_cancel' hge] at hgot
        exact hgot
  | hashEnd hstage hend =>
    obtain ⟨hfs, hchecked, hstage', herrors⟩ := h.compare hsha hs hstage hend
    rw [hfs]
    exact ⟨hchecked, hstage', .inl herrors⟩
  | notOpened | hashError | notRenamed => exact ⟨trivial, .inr rfl, .inl (by simp [Errors])⟩
  | renamed hstage hrename =>
    unfold Checked at h
    rw [hstage] at h
    obtain ⟨file, hcontent, hdir⟩ := h
    rw [hs.tmpPath, hs.savePath] at hrename
    unfold Files.System.rename at hrename
    split at hrename
    · rename_i i hi
      cases hrename
      refine ⟨⟨file, hcontent, ?_⟩, .inl rfl, .inl hquiet⟩
      rcases hdir with hdir | hdir
      · rw [hi] at hdir
        rw [← hdir]
        exact Function.update_self ..
      · rw [hi] at hdir
        cases hdir
    · cases hrename
  | finished hstage =>
    unfold Checked at h
    rw [hstage] at h
    exact ⟨h, .inl rfl, .inl hquiet⟩
  | done hstage =>
    unfold Checked at h
    rw [hstage] at h
    obtain ⟨file, hcontent, hdir⟩ := h
    refine ⟨trivial, .inr rfl, .inr ⟨rfl, ?_⟩⟩
    unfold Files.System.read
    rw [hdir, ← hcontent]
    rfl
  | notDone => exact ⟨trivial, .inr rfl, .inl hquiet⟩
  | _ =>
    generalize s.stage = stage at hclosing hfits
    cases stage with
    | closed | verifying file got | verified | renamed | finished => cases hfits
    | _ => cases hclosing

theorem checked_of_not_closing {fs : FS} (h : s.stage.closing = false) : Checked env src fs s := by
  unfold Checked
  split <;> rename_i hstage
  · rw [hstage] at h
    cases h
  · rw [hstage] at h
    cases h
  · rw [hstage] at h
    cases h
  · rw [hstage] at h
    cases h
  · trivial

theorem closing_of_dead {stage : Stage} (h : stage.dead = true) : stage.closing = false := by
  cases stage with
  | failed | unregister | returned | crashed p => rfl
  | _ => cases h

theorem closing_of_opening (h : s.Opening src) : s.stage.closing = false := by
  unfold Opening at h
  split at h <;> rename_i hstage
  · rw [hstage]
    rfl
  · rw [hstage]
    rfl
  · rw [hstage]
    rfl
  · exact h.elim

/-! ### Streams -/

/-- The session expects the chunk `a` and has acknowledged no later one. -/
structure Works (src : Source) (s : Session) (a : Nat) : Prop where
  expects : s.Expects src a
  ack : ∃ last : Nat, s.lastAck = last ∧ last ≤ a

theorem Works.receive {a : Nat} (h : Works src s a) (hs : s.Ours env src) (hz : env.zstd.Lawful)
    (hF : src.data.length < 2 ^ 63) (ha : a < src.totalChunks) (fs : FS) (io : DataIO) :
    let r := s.receive env fs (src.frame env a) io
    Effect env src fs r.1 ∧ .done ∉ r.2.2 ∧ (r.2.1.stage.dead = true ∨ Works src r.2.1 (a + 1)) := by
  have hn := src.totalChunks_lt hF
  obtain ⟨last, hack, hle⟩ := h.ack
  obtain ⟨⟨i, m, hfs⟩, hout⟩ := h.expects.receive hs hz ha (by omega) hack (by omega) fs io
  refine ⟨.inr (.inr ⟨i, a, m, ha, hfs⟩), ?_⟩
  rcases hout with ⟨hfailed, herrors⟩ | ⟨hexpects, hlast, hreply⟩
  · refine ⟨fun hdone => ?_, .inl (by rw [hfailed]; rfl)⟩
    obtain ⟨why, hwhy⟩ := herrors _ hdone
    cases hwhy
  · refine ⟨?_, .inr ⟨hexpects, _, hlast, ?_⟩⟩
    · rw [hreply]
      split <;> simp
    · split <;> omega

/-- What may follow the DATA frames. -/
inductive Tail (pay : Payloads env src) : List Frame → Prop
  | none : Tail pay []
  | fin : Tail pay [⟨frameTypeFin, pay.fin⟩]
  | cancel (reason : String) : Tail pay [⟨frameTypeCancel, pay.cancel reason⟩]

namespace Link

/-- The session works through the DATA frames, and `tail` follows them. -/
structure Busy (env : Env) (src : Source) (l : Link) (s : Session) (tail : List Frame) : Prop where
  works : ∃ a q, Works src s a ∧ (q ≤ src.totalChunks ∨ q ≤ a) ∧ l.toReceiver = src.frames env a q ++ tail

/-- A stream that was given up. -/
def Old (env : Env) (src : Source) (l : Link) : Prop :=
  ∃ s, l.session = some s ∧ (s.stage.dead = true ∨ l.Busy env src s [])

/-- What is known of any stream once its INIT has been read. -/
def Fine (pay : Payloads env src) (l : Link) : Prop :=
  ∀ s, l.session = some s → (s.Opening src ∧ l.toReceiver = []) ∨ (∃ tail, Tail pay tail ∧ l.Busy env src s tail) ∨
    s.stage.closing = true ∨ s.stage.dead = true

variable {l : Link} {s : Session} {fs : FS} {a : Act} {rest : List Frame} {r : FS × Session × List Reply}

theorem Busy.serve {tail : List Frame} (h : l.Busy env src s tail) (ht : Tail pay tail) (hs : s.Ours env src)
    (hz : env.zstd.Lawful) (hF : src.data.length < 2 ^ 63) (hinput : l.input a = some rest)
    (hstep : s.step env fs a = some r) :
    Effect env src fs r.1 ∧ .done ∉ r.2.2 ∧
      (r.2.1.stage.dead = true ∨ Busy env src ⟨rest, l.toSender ++ r.2.2, some r.2.1⟩ r.2.1 tail ∨
        (tail ≠ [] ∧ r.2.1.stage = .closed)) := by
  obtain ⟨k, q, hworks, hq, hqueue⟩ := h.works
  rcases hworks.expects.step_cases hstep with ⟨f, io, rfl, rfl⟩ | ⟨-, rfl⟩
  · have hhead := input_recv hinput
    rw [hqueue] at hhead
    rcases Nat.lt_or_ge k q with hlt | hge
    · rw [src.frames_cons env hlt, List.cons_append] at hhead
      obtain ⟨rfl, rfl⟩ := List.cons_eq_cons.1 hhead
      obtain ⟨heffect, hdone, hout⟩ := hworks.receive hs hz hF (by omega) fs io
      refine ⟨heffect, hdone, hout.imp_right fun hw => .inl ⟨k + 1, q, hw, by omega, rfl⟩⟩
    · rw [src.frames_of_le env hge, List.nil_append] at hhead
      cases ht with
      | none => cases hhead
      | fin =>
        obtain ⟨rfl, rfl⟩ := List.cons_eq_cons.1 hhead
        have hreceive : s.receive env fs ⟨frameTypeFin, pay.fin⟩ io =
            (fs, { s with stage := .closed, tmpFile := none }, []) := by
          have hsum : ¬env.json.finChecksum pay.fin ≠ s.init.checksum := by
            rw [pay.fin_read, hs.checksum]
            exact fun hne => hne rfl
          have hother : ¬(frameTypeFin = frameTypeCancel ∨ frameTypeFin = frameTypeError) := by decide
          have hdata : ¬frameTypeFin = frameTypeData := by decide
          unfold Session.receive
          rw [if_neg hother, if_neg hdata, if_pos rfl, if_neg hsum]
        rw [hreceive]
        exact ⟨.inl rfl, by simp, .inr (.inr ⟨by simp, rfl⟩)⟩
      | cancel reason =>
        obtain ⟨rfl, rfl⟩ := List.cons_eq_cons.1 hhead
        have hreceive : s.receive env fs ⟨frameTypeCancel, pay.cancel reason⟩ io =
            (fs, { s with stage := .failed }, []) := by
          unfold Session.receive
          rw [if_pos (.inl rfl)]
        rw [hreceive]
        exact ⟨.inl rfl, by simp, .inl rfl⟩
  · exact ⟨.inl rfl, by simp, .inl rfl⟩

theorem Old.not_closing (h : l.Old env src) (hs : l.session = some s) : s.stage.closing = false := by
  obtain ⟨s', hs', hdead | hbusy⟩ := h <;> cases hs.symm.trans hs'
  · exact closing_of_dead hdead
  · obtain ⟨k, q, hworks, -⟩ := hbusy.works
    rw [hworks.expects.stage]
    rfl

theorem Old.serve (h : l.Old env src) (hs : l.session = some s) (hk : l.Known pay) (hz : env.zstd.Lawful)
    (hF : src.data.length < 2 ^ 63) (hinput : l.input a = some rest) (hstep : s.step env fs a = some r) :
    Effect env src fs r.1 ∧ .done ∉ r.2.2 ∧ Old env src ⟨rest, l.toSender ++ r.2.2, some r.2.1⟩ := by
  have hours := hk.ours s hs
  obtain ⟨s', hs', hdead | hbusy⟩ := h <;> cases hs.symm.trans hs'
  · obtain ⟨hdead', hreply, hfs⟩ := dead_step hdead hstep
    rw [hours.tmpPath] at hfs
    refine ⟨hfs.imp_right .inl, ?_, _, rfl, .inl hdead'⟩
    rw [hreply]
    simp
  · obtain ⟨heffect, hdone, hout⟩ := hbusy.serve (show Tail pay [] from .none) hours hz hF hinput hstep
    refine ⟨heffect, hdone, _, rfl, ?_⟩
    rcases hout with hdead | hbusy' | ⟨hne, -⟩
    · exact .inl hdead
    · exact .inr hbusy'
    · exact absurd rfl hne

theorem fine_some {toReceiver : List Frame} {toSender : List Reply}
    (h : (s.Opening src ∧ toReceiver = []) ∨ (∃ tail, Tail pay tail ∧ Busy env src ⟨toReceiver, toSender, some s⟩ s tail) ∨
      s.stage.closing = true ∨ s.stage.dead = true) : Fine pay ⟨toReceiver, toSender, some s⟩ := by
  intro s' hs'
  cases hs'
  exact h

theorem Fine.serve (h : l.Fine pay) (hs : l.session = some s) (hk : l.Known pay) (hz : env.zstd.Lawful)
    (hF : src.data.length < 2 ^ 63) (hsha : Function.Injective env.sha256) (hchecked : Checked env src fs s)
    (hinput : l.input a = some rest) (hstep : s.step env fs a = some r) :
    Fine pay ⟨rest, l.toSender ++ r.2.2, some r.2.1⟩ ∧ Checked env src r.1 r.2.1 ∧
      (.done ∈ r.2.2 → r.1.read (src.savePath env) = some src.data) := by
  have hours := hk.ours s hs
  rcases h s hs with ⟨hopening, hqueue⟩ | ⟨tail, ht, hbusy⟩ | hclosing | hdead
  · obtain ⟨rfl, -⟩ := input_nil hqueue hinput
    rcases hopening.step hours hF hstep with ⟨hstill, hreply⟩ | ⟨hdead, hreply⟩ | ⟨k, hexpects, hack, hreply⟩
    · refine ⟨fine_some (.inl ⟨hstill, rfl⟩), checked_of_not_closing (closing_of_opening hstill), fun hdone => ?_⟩
      rw [hreply] at hdone
      cases hdone
    · refine ⟨fine_some (.inr (.inr (.inr hdead))), checked_of_not_closing (closing_of_dead hdead), fun hdone => ?_⟩
      rcases hreply with hreply | hreply <;> rw [hreply] at hdone <;> simp at hdone
    · have hloop : r.2.1.stage.closing = false := by
        rw [hexpects.stage]
        rfl
      refine ⟨fine_some (.inr (.inl ⟨[], .none, k, k, ⟨hexpects, k, hack, le_rfl⟩, .inr le_rfl, ?_⟩)),
        checked_of_not_closing hloop, fun hdone => ?_⟩
      · rw [src.frames_of_le env le_rfl]
        rfl
      · rw [hreply] at hdone
        simp at hdone
  · obtain ⟨-, hdone, hout⟩ := hbusy.serve ht hours hz hF hinput hstep
    refine ⟨fine_some ?_, ?_, fun hin => absurd hin hdone⟩
    · rcases hout with hdead | hbusy' | ⟨-, hclosed⟩
      · exact .inr (.inr (.inr hdead))
      · exact .inr (.inl ⟨tail, ht, hbusy'⟩)
      · exact .inr (.inr (.inl (by rw [hclosed]; rfl)))
    · rcases hout with hdead | hbusy' | ⟨-, hclosed⟩
      · exact checked_of_not_closing (closing_of_dead hdead)
      · obtain ⟨k, q, hworks, -⟩ := hbusy'.works
        refine checked_of_not_closing ?_
        rw [hworks.expects.stage]
        rfl
      · unfold Checked
        rw [hclosed]
        trivial
  · obtain ⟨hchecked', hstage, hreply⟩ := hchecked.step hsha hours hclosing hstep
    refine ⟨fine_some (.inr (.inr hstage)), hchecked', fun hin => ?_⟩
    rcases hreply with herrors | ⟨-, hread⟩
    · obtain ⟨why, hwhy⟩ := herrors _ hin
      cases hwhy
    · exact hread
  · obtain ⟨hdead', hreply, -⟩ := dead_step hdead hstep
    refine ⟨fine_some (.inr (.inr (.inr hdead'))), checked_of_not_closing (closing_of_dead hdead'), fun hin => ?_⟩
    rw [hreply] at hin
    cases hin

theorem Linked.busy {base q : Nat} (h : l.Linked env src base q) (tail : List Frame) :
    ∃ s, l.session = some s ∧
      (s.stage.dead = true ∨ Busy env src { l with toReceiver := l.toReceiver ++ tail } s tail) := by
  rcases h.2 with ⟨s, k, hserves⟩ | hlost
  · have hle := hserves.le
    refine ⟨s, hserves.session, .inr ⟨k, q, ⟨hserves.expects, ?_⟩, ?_, ?_⟩⟩
    · by_cases hfull : base < k ∧ k = min (base + ackBatch) src.totalChunks
      · exact ⟨k, (hserves.acked hfull).1, le_rfl⟩
      · exact ⟨base, (hserves.pending hfull).1, hle.1⟩
    · rcases h.1 with heq | hle'
      · exact .inr (by omega)
      · exact .inl (by omega)
    · simp only
      rw [hserves.queue]
  · obtain ⟨s, hs, hdead⟩ := hlost.session
    exact ⟨s, hs, .inl hdead⟩

theorem Linked.fine {base q : Nat} (h : l.Linked env src base q) {tail : List Frame} (ht : Tail pay tail) :
    Fine pay { l with toReceiver := l.toReceiver ++ tail } := by
  intro s hs
  obtain ⟨s', hs', hcase⟩ := h.busy tail
  cases hs.symm.trans hs'
  rcases hcase with hdead | hbusy
  · exact .inr (.inr (.inr hdead))
  · exact .inr (.inl ⟨tail, ht, hbusy⟩)

theorem Fine.congr {l' : Link} (h : l.Fine pay) (hqueue : l'.toReceiver = l.toReceiver) (hs : l'.session = l.session) :
    l'.Fine pay := by
  intro s hs'
  rcases h s (hs ▸ hs') with ⟨hopening, hnil⟩ | ⟨tail, ht, k, q, hworks, hq, hframes⟩ | hstage
  · exact .inl ⟨hopening, hqueue.trans hnil⟩
  · exact .inr (.inl ⟨tail, ht, k, q, hworks, hq, hqueue.trans hframes⟩)
  · exact .inr (.inr hstage)

end Link

theorem Phase.fine {snd snd' : Sender} {l l' : Link} {a : SendAct} {frames : List Frame} (h : Phase env src snd l)
    (hfine : l.Fine pay) (hF : src.data.length < 2 ^ 63) (hstep : Sender.step pay snd a = some (snd', frames))
    (hread : l.read a.reads = some l') (ha : a ≠ .connect true) :
    Link.Fine pay { l' with toReceiver := l'.toReceiver ++ frames } := by
  obtain ⟨hqueue, hsession, -⟩ := Link.read_eq hread
  have hquiet : frames = [] → Link.Fine pay { l' with toReceiver := l'.toReceiver ++ frames } := by
    rintro rfl
    refine hfine.congr ?_ hsession
    simp only
    rw [List.append_nil, hqueue]
  cases Sender.stepped hstep with
  | connected => exact absurd rfl ha
  | init hstage =>
    cases Option.some.inj hread
    unfold Phase at h
    rw [hstage] at h
    rw [h]
    intro s hs
    cases hs
  | entered hstage heq =>
    cases Option.some.inj hread
    unfold Phase at h
    rw [hstage] at h
    obtain ⟨q, -, hlinked⟩ := h
    unfold Sender.enter at heq
    split at heq
    · split at heq
      · cases heq
        exact hlinked.fine (.cancel "cancelled")
      · cases heq
        exact hlinked.fine .none
    · cases heq
      exact hlinked.fine .none
  | chunk hstage heq =>
    have hphase := h.send hF hstep hread ha
    cases Option.some.inj hread
    unfold Phase at h
    rw [hstage] at h
    obtain ⟨base, q, -, -, -, -, -, hlinked⟩ := h
    unfold Sender.sendChunk at heq
    simp only at heq
    split_ifs at heq <;> cases heq
    · exact hlinked.fine (.cancel "read error")
    · exact hlinked.fine .none
    · exact hlinked.fine .none
    · unfold Phase at hphase
      simp only [hstage] at hphase
      obtain ⟨base', q', -, -, -, -, -, hlinked'⟩ := hphase
      have hfine' := hlinked'.fine (show Tail pay [] from .none)
      simpa using hfine'
    · exact hlinked.fine .none
  | fin hstage =>
    cases Option.some.inj hread
    unfold Phase at h
    rw [hstage] at h
    obtain ⟨q, -, hlinked⟩ := h
    exact hlinked.fine .fin
  | accepted | acked | lost | done | deleted | notConnected | notInit | notAccepted | notFin | notDone =>
    exact hquiet rfl

theorem Sender.done_of_step {snd snd' : Sender} {a : SendAct} {frames : List Frame}
    (h : Sender.step pay snd a = some (snd', frames))
    (hst : snd'.stage = .returning true ∨ snd'.stage = .returned true) :
    a = .readDone (some .done) ∨ snd.stage = .returning true := by
  cases Sender.stepped h with
  | done => exact .inl rfl
  | deleted hstage =>
    rcases hst with hst | hst
    · cases hst
    · cases hst
      exact .inr hstage
  | entered _ heq =>
    unfold Sender.enter at heq
    simp only at heq
    split_ifs at heq <;> cases heq <;> simp at hst
  | chunk hstage heq =>
    unfold Sender.sendChunk at heq
    simp only at heq
    split_ifs at heq <;> cases heq <;> simp [hstage] at hst
  | connected | init | accepted | acked | lost | fin | notConnected | notInit | notAccepted | notFin | notDone =>
    simp at hst

namespace Transfer

/-- Streams given up carry chunks only, the newest one is known, and DONE is sent for the source. -/
structure Agree (pay : Payloads env src) (t : Transfer) : Prop where
  old : ∀ l ∈ t.links.tail, l.Old env src
  idle : t.sender.stage = .connect → ∀ l ∈ t.links, l.Old env src
  fine : ∀ l ∈ t.links, l.Fine pay
  checked : ∀ l ∈ t.links, ∀ s, l.session = some s → Checked env src t.fs s
  right : ∀ x ∈ t.dones, x = some src.data
  sent : ∀ l ∈ t.links, .done ∈ l.toSender → t.dones ≠ []
  told : t.sender.stage = .returning true ∨ t.sender.stage = .returned true → t.dones ≠ []

variable {t t' : Transfer}

theorem Agree.send (h : Agree pay t) (hsync : Sync pay t) (hF : src.data.length < 2 ^ 63) {a : SendAct}
    (hstep : send pay t a = some t') : Agree pay t' := by
  obtain ⟨snd, frames, hsnd, ⟨rfl, rfl⟩ | ⟨ha, hnil, rfl⟩ | ⟨ha, l, rest, l', hlinks, hread, rfl⟩⟩ := send_cases hstep
  · obtain ⟨hstage⟩ := Sender.stepped hsnd
    refine ⟨h.idle hstage, fun hst => ?_, fun l hl => ?_, fun l hl s hs => ?_, h.right, fun l hl hin => ?_, fun hst => ?_⟩
    · cases hst
    · rcases List.mem_cons.1 hl with rfl | hl
      · intro s hs
        cases hs
      · exact h.fine l hl
    · rcases List.mem_cons.1 hl with rfl | hl
      · cases hs
      · exact h.checked l hl s hs
    · rcases List.mem_cons.1 hl with rfl | hl
      · cases hin
      · exact h.sent l hl hin
    · simp at hst
  · have hidle := Sender.step_of_idle hsnd ha (hsync.empty hnil)
    refine { h with idle := fun _ l hl => ?_, told := fun hst => ?_ }
    · simp only [hnil] at hl
      cases hl
    · rcases hidle with hi | hi | hi <;> simp [hi] at hst
  · have hphase := hsync.phase l rest hlinks
    have hmem : l ∈ t.links := by
      rw [hlinks]
      exact List.mem_cons_self
    have hrest : ∀ l₁ ∈ rest, l₁ ∈ t.links := fun l₁ hl₁ => by
      rw [hlinks]
      exact List.mem_cons_of_mem _ hl₁
    have hold : ∀ l₁ ∈ rest, l₁.Old env src := fun l₁ hl₁ => h.old l₁ (by rw [hlinks]; exact hl₁)
    obtain ⟨hqueue, hsession, hsub⟩ := Link.read_eq hread
    refine ⟨hold, fun hst l₁ hl₁ => ?_, fun l₁ hl₁ => ?_, fun l₁ hl₁ s hs => ?_, h.right, fun l₁ hl₁ hin => ?_, fun hst => ?_⟩
    · rcases List.mem_cons.1 hl₁ with rfl | hl₁
      · obtain ⟨hstage, -, rfl⟩ := (Sender.stage_of_step hsnd).1 hst
        unfold Phase at hphase
        rw [hstage] at hphase
        obtain ⟨base, q, -, -, -, hlinked⟩ := hphase
        obtain ⟨s, hs, hcase⟩ := hlinked.busy []
        refine ⟨s, hsession.trans hs, hcase.imp_right fun hbusy => ⟨?_⟩⟩
        have hworks := hbusy.works
        simp only at hworks ⊢
        rwa [hqueue]
      · exact hold l₁ hl₁
    · rcases List.mem_cons.1 hl₁ with rfl | hl₁
      · exact hphase.fine (h.fine l hmem) hF hsnd hread ha
      · exact h.fine l₁ (hrest l₁ hl₁)
    · rcases List.mem_cons.1 hl₁ with rfl | hl₁
      · exact h.checked l hmem s (hsession ▸ hs)
      · exact h.checked l₁ (hrest l₁ hl₁) s hs
    · rcases List.mem_cons.1 hl₁ with rfl | hl₁
      · exact h.sent l hmem (hsub hin)
      · exact h.sent l₁ (hrest l₁ hl₁) hin
    · rcases Sender.done_of_step hsnd hst with rfl | hstage
      · obtain ⟨replies, hreplies, -⟩ := Link.read_some hread
        refine h.sent l hmem ?_
        rw [hreplies]
        exact List.mem_cons_self
      · exact h.told (.inl hstage)

theorem Agree.start (offset : Int) (fs : FS) : Agree pay (start offset fs) :=
  ⟨fun _ hl => absurd hl List.not_mem_nil, fun _ _ hl => absurd hl List.not_mem_nil,
    fun _ hl => absurd hl List.not_mem_nil, fun _ hl => absurd hl List.not_mem_nil,
    fun _ hx => absurd hx List.not_mem_nil, fun _ hl => absurd hl List.not_mem_nil, fun hst => by simp [Transfer.start] at hst⟩

theorem Agree.readInit (h : Agree pay t) (hsync : Sync pay t) {j : Nat} (hstep : readInit env t j = some t') :
    Agree pay t' := by
  obtain ⟨f, rest, toSender, init, hl, hinit, rfl⟩ := readInit_cases hstep
  have hmem := List.mem_of_getElem? hl
  have hnew : ¬Link.Old env src ⟨f :: rest, toSender, none⟩ := by
    rintro ⟨s, hs, -⟩
    cases hs
  obtain ⟨tail, rfl, hlinks⟩ : ∃ tail, j = 0 ∧ t.links = ⟨f :: rest, toSender, none⟩ :: tail := by
    cases hlinks : t.links with
    | nil =>
      rw [hlinks] at hl
      cases hl
    | cons l₀ tail =>
      rw [hlinks] at hl
      cases j with
      | zero =>
        cases hl
        exact ⟨tail, rfl, rfl⟩
      | succ j =>
        have hold := h.old _ (by rw [hlinks]; exact List.mem_of_getElem? hl)
        exact absurd hold hnew
  have hqueue : rest = [] := by
    rcases (hsync.known _ hmem).unread rfl with hnil | ⟨offset, -, hframes⟩
    · cases hnil
    · exact (List.cons_eq_cons.1 hframes).2
  have hold := h.old
  have hfine := h.fine
  have hchecked := h.checked
  have hsent := h.sent
  rw [hlinks] at hold hfine hchecked hsent
  simp only [hlinks, List.set_cons_zero]
  refine ⟨hold, fun hst => absurd (h.idle hst _ hmem) hnew, fun l hl => ?_, fun l hl s hs => ?_, h.right, fun l hl hin => ?_,
    h.told⟩
  · rcases List.mem_cons.1 hl with rfl | hl
    · exact Link.fine_some (.inl ⟨trivial, hqueue⟩)
    · exact hfine l (List.mem_cons_of_mem _ hl)
  · rcases List.mem_cons.1 hl with rfl | hl
    · cases hs
      trivial
    · exact hchecked l (List.mem_cons_of_mem _ hl) s hs
  · rcases List.mem_cons.1 hl with rfl | hl
    · exact hsent _ List.mem_cons_self hin
    · exact hsent l (List.mem_cons_of_mem _ hl) hin

theorem Agree.serve (h : Agree pay t) (hsync : Sync pay t) (hz : env.zstd.Lawful) (hF : src.data.length < 2 ^ 63)
    (hsha : Function.Injective env.sha256) {j : Nat} {a : Act} (hstep : serve env t j a = some t') : Agree pay t' := by
  obtain ⟨l, s, rest, r, hl, hs, hinput, hses, rfl⟩ := serve_cases hstep
  have hmem := List.mem_of_getElem? hl
  have hknown := hsync.known l hmem
  obtain ⟨hfine', hchecked', hread⟩ := (h.fine l hmem).serve hs hknown hz hF hsha (h.checked l hmem s hs) hinput hses
  have hsave := (hknown.ours s hs).savePath
  -- a stream that was given up stays one, and says no DONE
  have hold' : l.Old env src → Link.Old env src ⟨rest, l.toSender ++ r.2.2, some r.2.1⟩ := fun hold =>
    (hold.serve hs hknown hz hF hinput hses).2.2
  -- the file system changes under the other sessions only if they do not care, or harmlessly
  have hothers : ∀ l₁ ∈ t.links.set j ⟨rest, l.toSender ++ r.2.2, some r.2.1⟩, ∀ s₁, l₁.session = some s₁ →
      Checked env src r.1 s₁ := by
    intro l₁ hl₁ s₁ hs₁
    cases hlinks : t.links with
    | nil =>
      rw [hlinks] at hl
      cases hl
    | cons l₀ tail =>
      rw [hlinks] at hl hl₁
      have hold := h.old
      rw [hlinks] at hold
      cases j with
      | zero =>
        rcases List.mem_cons.1 hl₁ with rfl | hl₁
        · cases hs₁
          exact hchecked'
        · exact checked_of_not_closing ((hold l₁ hl₁).not_closing hs₁)
      | succ j =>
        have heffect := ((hold l (List.mem_of_getElem? hl)).serve hs hknown hz hF hinput hses).1
        rcases List.mem_or_eq_of_mem_set hl₁ with hl₁ | rfl
        · exact (h.checked l₁ (by rw [hlinks]; exact hl₁) s₁ hs₁).effect heffect
        · cases hs₁
          exact hchecked'
  refine ⟨fun l₁ hl₁ => ?_, fun hst l₁ hl₁ => ?_, fun l₁ hl₁ => ?_, hothers, fun x hx => ?_, fun l₁ hl₁ hin => ?_,
    fun hst => ?_⟩
  · cases hlinks : t.links with
    | nil =>
      rw [hlinks] at hl
      cases hl
    | cons l₀ tail =>
      have hold := h.old
      simp only [hlinks] at hl hl₁ hold
      cases j with
      | zero => exact hold l₁ hl₁
      | succ j =>
        rcases List.mem_or_eq_of_mem_set hl₁ with hl₁ | rfl
        · exact hold l₁ hl₁
        · exact hold' (hold l (List.mem_of_getElem? hl))
  · rcases List.mem_or_eq_of_mem_set hl₁ with hl₁ | rfl
    · exact h.idle hst l₁ hl₁
    · exact hold' (h.idle hst l hmem)
  · rcases List.mem_or_eq_of_mem_set hl₁ with hl₁ | rfl
    · exact h.fine l₁ hl₁
    · exact hfine'
  · simp only at hx
    split at hx
    · rename_i hdone
      rcases List.mem_append.1 hx with hx | hx
      · exact h.right x hx
      · rw [List.mem_singleton.1 hx, hsave]
        exact hread hdone
    · exact h.right x hx
  · simp only
    split
    · simp
    · rename_i hdone
      rcases List.mem_or_eq_of_mem_set hl₁ with hl₁ | rfl
      · exact h.sent l₁ hl₁ hin
      · rcases List.mem_append.1 hin with hin | hin
        · exact h.sent l hmem hin
        · exact absurd hin hdone
  · simp only
    split
    · simp
    · exact h.told hst

/-- If `SendFile` returns without an error, DONE was sent, and each time `savePath` had the bytes of the source. -/
theorem file_agreement {fs : FS} (hz : env.zstd.Lawful) (hF : src.data.length < 2 ^ 63)
    (hsha : Function.Injective env.sha256) (h : (system pay 0 fs).Reach anyStep t)
    (hok : t.sender.stage = .returned true) : t.dones ≠ [] ∧ ∀ x ∈ t.dones, x = some src.data := by
  have hagree : Agree pay t := by
    refine h.invariant (I := Agree pay) ?_ ?_
    · rintro _ rfl
      exact Agree.start 0 fs
    · intro t m t' ht hagree _ hstep
      have hsync := sync_reach hz hF (by omega) ht
      cases m with
      | send a => exact hagree.send hsync hF hstep
      | readInit j => exact hagree.readInit hsync hstep
      | serve j a => exact hagree.serve hsync hz hF hsha hstep
  exact ⟨hagree.told (.inr hok), hagree.right⟩

theorem identityHash_injective : Function.Injective identityHash := by
  intro l l' h
  have hchars := String.ofList_injective h
  have hbyte : ∀ b : Byte, BitVec.ofNat 8 (Char.ofNat b.toNat).toNat = b := by decide +kernel
  have hback : ∀ l : List Byte, (l.map fun b => Char.ofNat b.toNat).map (fun c => BitVec.ofNat 8 c.toNat) = l := by
    intro l
    rw [List.map_map]
    exact List.map_id'' hbyte l
  rw [← hback l, ← hback l', hchars]

def untilDone : List Move :=
  [.serve 0 (.recv (byteSource.frame byteEnv 0) .ok), .send (.readAck (some (.ack 0))), .send (.enter false),
    .send (.writeFin true), .serve 0 (.recv ⟨frameTypeFin, []⟩ .ok), .serve 0 .openPart, .serve 0 (.hash 1),
    .serve 0 .hashEnd, .serve 0 (.rename true), .serve 0 .finish, .serve 0 (.done true),
    .send (.readDone (some .done)), .send .delete]

theorem file_agreement_byte :
    ∃ t, (system bytePayloads 0 (.ofFiles fun _ => none)).Reach anyStep t ∧ t.sender.stage = .returned true ∧
      t.dones ≠ [] ∧ ∀ x ∈ t.dones, x = some [7] := by
  have hreach : (system bytePayloads 0 (.ofFiles fun _ => none)).Reach anyStep _ :=
    ⟨_, rfl, exec_steps_getD
      (show (exec (next bytePayloads) (start 0 (.ofFiles fun _ => none)) (untilAck ++ untilDone)).isSome = true by
        decide +kernel)
      (execMeets_anyStep _ _ _)⟩
  exact ⟨_, hreach, by decide +kernel,
    file_agreement storing_lawful (by decide) identityHash_injective hreach (by decide +kernel)⟩

end Transfer

end Libp2px.RelayFile
