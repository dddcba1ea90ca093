import Libp2px.RelayFile.Receive
import Libp2px.RelayFile.Send

/-!
# A session that serves `SendFile`

The INIT of `SendFile` describes the file, and its chunks come in order, so the session writes each chunk at its place.
The ACKs come after eight chunks, counted from the offset that was accepted, and after the last one.
-/

namespace Libp2px.RelayFile

open Chunks

/-- The stages of a session that has given up, or is done with its stream. -/
def Stage.dead : Stage → Bool
  | failed | unregister | returned | crashed _ => true
  | _ => false

def Stage.closing : Stage → Bool
  | closed | verifying _ _ | verified | renamed | finished => true
  | _ => false

namespace Source

def chunk (src : Source) (j : Nat) : List Byte := Chunks.chunk chunkSize src.data j

def frame (env : Env) (src : Source) (j : Nat) : Frame :=
  ⟨frameTypeData, packDataFrame env.zstd j (src.chunk j) src.compression⟩

def frames (env : Env) (src : Source) (a b : Nat) : List Frame := (List.range' a (b - a)).map (src.frame env)

variable (env : Env) (src : Source)

theorem frames_of_le {a b : Nat} (h : b ≤ a) : src.frames env a b = [] := by
  unfold frames
  rw [Nat.sub_eq_zero_of_le h]
  rfl

theorem frames_cons {a b : Nat} (h : a < b) : src.frames env a b = src.frame env a :: src.frames env (a + 1) b := by
  have hlen : b - a = (b - (a + 1)) + 1 := by omega
  unfold frames
  rw [hlen, List.range'_succ]
  rfl

theorem frames_concat {a b : Nat} (h : a ≤ b) : src.frames env a (b + 1) = src.frames env a b ++ [src.frame env b] := by
  have hlen : b + 1 - a = (b - a) + 1 := by omega
  unfold frames
  rw [hlen, List.range'_concat, List.map_append, Nat.one_mul, Nat.add_sub_cancel' h]
  rfl

theorem totalChunks_lt (h : src.data.length < 2 ^ 63) : src.totalChunks < 2 ^ 63 - ackBatch := by
  unfold totalChunks count chunkSize ackBatch
  split <;> omega

theorem frame_unpack (hz : env.zstd.Lawful) {j : Nat} (hj : j < 2 ^ 63) :
    unpackDataFrame env.zstd (src.frame env j).payload src.compression = .ok (j, src.chunk j) := by
  have hlen : (src.chunk j).length = _ := length_chunk chunkSize src.data j
  refine unpackDataFrame_packDataFrame hz src.compression ⟨by omega, by exact_mod_cast hj⟩ ?_
  unfold chunkSize at hlen
  omega

end Source

namespace Session

variable {env : Env} {src : Source} {fs : FS} {s : Session}

/-- The session was opened by the sender. -/
def Ours (env : Env) (src : Source) (s : Session) : Prop := ∃ offset, s.init = src.init env offset

theorem Ours.total (h : s.Ours env src) : s.init.totalChunks = src.totalChunks := by
  obtain ⟨offset, hinit⟩ := h
  rw [hinit]
  rfl

theorem Ours.toNat_total (h : s.Ours env src) : s.init.totalChunks.toNat = src.totalChunks := by
  rw [h.total, Int.toNat_natCast]

theorem Ours.chunkSize_eq (h : s.Ours env src) : s.init.chunkSize = chunkSize := by
  obtain ⟨offset, hinit⟩ := h
  rw [hinit]
  rfl

theorem Ours.compression (h : s.Ours env src) : s.compression = src.compression := by
  obtain ⟨offset, hinit⟩ := h
  unfold Session.compression
  rw [hinit]
  unfold Source.init
  cases src.compression <;> rfl

structure Expects (src : Source) (s : Session) (a : Nat) : Prop where
  stage : s.stage = .loop
  marks : Marks s.bitmap src.totalChunks fun m => m < a ∧ m < src.totalChunks
  file : ∃ i cursor, s.tmpFile = some ⟨i, cursor⟩ ∧ (a < src.totalChunks → cursor = a * chunkSize)

/-- An ACK is due after the chunk `a`. -/
def due (src : Source) (last a : Nat) : Prop := (last + ackBatch ≤ a + 1 ∨ a + 1 = src.totalChunks) ∧ last < a + 1

instance (src : Source) (last a : Nat) : Decidable (due src last a) := inferInstanceAs (Decidable (_ ∧ _))

def Errors (replies : List Reply) : Prop := ∀ r ∈ replies, ∃ why, r = .error why

theorem Expects.acknowledge {a last : Nat} (h : s.Expects src (a + 1)) (hs : s.Ours env src) (ha : a < src.totalChunks)
    (hn : src.totalChunks < 2 ^ 63) (hack : s.lastAck = last) (hlast : last < 2 ^ 63) (fs : FS) (io : DataIO) :
    (s.acknowledge fs io).1 = fs ∧
      ((s.acknowledge fs io).2.1.stage = .failed ∧ Errors (s.acknowledge fs io).2.2 ∨
        (s.acknowledge fs io).2.1.Expects src (a + 1) ∧
        (s.acknowledge fs io).2.1.lastAck = (if due src last a then a + 1 else last : Nat) ∧
        (s.acknowledge fs io).2.2 = if due src last a then [.ack a] else []) := by
  obtain ⟨r, hr, hbelow, hmissing, heq⟩ := acknowledge_of_marks fs io h.marks hs.total hack hn hlast
  have hra : r = a + 1 := by
    rcases Nat.lt_trichotomy r (a + 1) with hlt | hra | hgt
    · exact absurd ⟨hlt, by omega⟩ (hmissing (by omega))
    · exact hra
    · have := (hbelow (a + 1) hgt).1
      omega
  subst hra
  have hcs : ((a + 1 : Nat) : Int) - 1 = a := by omega
  rw [heq, hcs]
  by_cases hdue : due src last a
  · have hdue' : (last + ackBatch ≤ a + 1 ∨ a + 1 = src.totalChunks) ∧ last < a + 1 := hdue
    rw [if_pos hdue']
    split
    · exact ⟨rfl, .inl ⟨rfl, by simp [Errors]⟩⟩
    · exact ⟨rfl, .inr ⟨{ h with }, rfl, rfl⟩⟩
  · have hdue' : ¬((last + ackBatch ≤ a + 1 ∨ a + 1 = src.totalChunks) ∧ last < a + 1) := hdue
    rw [if_neg hdue', if_neg hdue, if_neg hdue]
    exact ⟨rfl, .inr ⟨h, hack, rfl⟩⟩

theorem Expects.receive {a last : Nat} (h : s.Expects src a) (hs : s.Ours env src) (hz : env.zstd.Lawful)
    (ha : a < src.totalChunks) (hn : src.totalChunks < 2 ^ 63) (hack : s.lastAck = last) (hlast : last < 2 ^ 63)
    (fs : FS) (io : DataIO) :
    let r := s.receive env fs (src.frame env a) io
    (∃ i m, r.1 = fs.write i (a * chunkSize) ((src.chunk a).take m)) ∧
      (r.2.1.stage = .failed ∧ Errors r.2.2 ∨
        r.2.1.Expects src (a + 1) ∧ r.2.1.lastAck = (if due src last a then a + 1 else last : Nat) ∧
        r.2.2 = if due src last a then [.ack a] else []) := by
  intro r
  have hcarries : s.Carries env (src.frame env a) a (src.chunk a) :=
    ⟨rfl, hs.compression ▸ src.frame_unpack env hz (ha.trans hn)⟩
  have hnew : ¬bits s.bitmap a = true := fun hbit => absurd ((h.marks.mem a).1 hbit).1 (Nat.lt_irrefl a)
  obtain ⟨i, cursor, hfile, hcursor⟩ := h.file
  rw [hcursor ha] at hfile
  have hr : r = store fs s a (src.chunk a) io := by
    have heq := receive_eq fs io hcarries
    rwa [if_neg hnew] at heq
  by_cases hio : ∃ m, io = .writeFails m
  · obtain ⟨m, rfl⟩ := hio
    rw [hr]
    unfold store
    rw [hfile]
    exact ⟨⟨i, m, rfl⟩, .inl ⟨rfl, by simp [Errors]⟩⟩
  · push Not at hio
    obtain ⟨b, hb, hstore⟩ := store_eq fs (src.chunk a) hio h.marks ha hfile
    rw [hr, hstore]
    have hnext : Expects src { s with tmpFile := some ⟨i, a * chunkSize + (src.chunk a).length⟩, bitmap := b
                                      doneBytes := s.doneBytes + (src.chunk a).length } (a + 1) := by
      refine ⟨h.stage, hb.congr fun m => by omega, i, _, rfl, fun hlt => ?_⟩
      have hlen : (src.chunk a).length = chunkSize := length_chunk_of_lt (by decide) hlt
      rw [hlen, Nat.add_mul, Nat.one_mul]
    obtain ⟨hfs, hout⟩ := hnext.acknowledge hs ha hn hack hlast
      (fs.write i (a * chunkSize) (src.chunk a)) io
    refine ⟨⟨i, (src.chunk a).length, ?_⟩, hout⟩
    rw [hfs, List.take_length]

def Opening (src : Source) (s : Session) : Prop :=
  match s.stage with
  | .received => True
  | .opened _ => Marks s.bitmap src.totalChunks fun _ => False
  | .ready => ∃ k i cursor, s.startSeq = (k : Nat) ∧ s.lastAck = (k : Nat) ∧
      Marks s.bitmap src.totalChunks (fun m => m < k ∧ m < src.totalChunks) ∧ s.tmpFile = some ⟨i, cursor⟩ ∧
      (k < src.totalChunks → cursor = k * chunkSize)
  | _ => False

variable {r : FS × Session × List Reply}

theorem Opening.step (h : s.Opening src) (hs : s.Ours env src) (hF : src.data.length < 2 ^ 63) {a : Act}
    (hstep : s.step env fs a = some r) :
    (r.2.1.Opening src ∧ r.2.2 = []) ∨ (r.2.1.stage.dead = true ∧ (r.2.2 = [] ∨ r.2.2 = [.reject])) ∨
      ∃ k : Nat, r.2.1.Expects src k ∧ r.2.1.lastAck = k ∧ r.2.2 = [.accept k] := by
  have hn := src.totalChunks_lt hF
  cases a with
  | begin mkdir openable =>
    cases stepped hstep with
    | noDir => exact .inr (.inl ⟨rfl, .inr rfl⟩)
    | noBitmap => exact .inr (.inl ⟨rfl, .inl rfl⟩)
    | opened _ hb =>
      have htotal := hs.toNat_total
      have hmarks := makeBitmap_marks (by omega) hb
      rw [htotal] at hmarks
      exact .inl ⟨hmarks, rfl⟩
  | prepare created =>
    obtain ⟨file, hstage, heq⟩ := step_prepare hstep
    unfold Opening at h
    rw [hstage] at h
    cases file with
    | some i =>
      obtain ⟨b, hb, hprep⟩ := prepare_opened env fs i created (by decide) hs.chunkSize_eq hs.toNat_total h rfl
      rw [heq, hprep]
      refine .inl ⟨⟨_, i, _, rfl, rfl, hb, rfl, fun hlt => ?_⟩, rfl⟩
      have hend := (lt_count_iff (by decide)).1 hlt
      rw [wrap64_of_lt (by omega) (by exact_mod_cast hend.trans hF)]
      omega
    | none =>
      cases created with
      | false =>
        rw [heq]
        exact .inr (.inl ⟨rfl, .inr rfl⟩)
      | true =>
        rw [heq, prepare_created env fs hs.toNat_total h]
        exact .inl ⟨⟨0, _, 0, rfl, rfl, h.congr fun m => by simp, rfl, fun _ => by simp⟩, rfl⟩
  | accept written =>
    cases stepped hstep with
    | accepted hstage =>
      unfold Opening at h
      rw [hstage] at h
      obtain ⟨k, i, cursor, hstart, hack, hmarks, hfile, hcursor⟩ := h
      exact .inr (.inr ⟨k, ⟨rfl, hmarks, i, cursor, hfile, hcursor⟩, hack, by rw [hstart]⟩)
    | notAccepted => exact .inr (.inl ⟨rfl, .inl rfl⟩)
  | _ =>
    have hfits := fits_of_step hstep
    unfold Opening at h
    split at h
    · rename_i hstage
      rw [hstage] at hfits
      cases hfits
    · rename_i hstage
      rw [hstage] at hfits
      cases hfits
    · rename_i hstage
      rw [hstage] at hfits
      cases hfits
    · exact h.elim

theorem Expects.step_cases {k : Nat} (h : s.Expects src k) {a : Act} (hstep : s.step env fs a = some r) :
    (∃ f io, a = .recv f io ∧ r = s.receive env fs f io) ∨ a = .readError ∧ r = (fs, { s with stage := .failed }, []) := by
  have hfits := fits_of_step hstep
  rw [h.stage] at hfits
  cases stepped hstep with
  | received => exact .inl ⟨_, _, rfl, rfl⟩
  | readError => exact .inr ⟨rfl, rfl⟩
  | _ => cases hfits

theorem dead_step (h : s.stage.dead = true) {a : Act} (hstep : s.step env fs a = some r) :
    r.2.1.stage.dead = true ∧ r.2.2 = [] ∧ (r.1 = fs ∨ r.1 = fs.remove (s.tmpPath env)) := by
  have hfits := fits_of_step hstep
  cases stepped hstep with
  | ended | deleted => exact ⟨rfl, rfl, .inl rfl⟩
  | cleaned => exact ⟨rfl, rfl, .inr rfl⟩
  | _ =>
    generalize s.stage = stage at h hfits
    cases stage with
    | failed | unregister | returned | crashed p => cases hfits
    | _ => cases h

end Session

end Libp2px.RelayFile
