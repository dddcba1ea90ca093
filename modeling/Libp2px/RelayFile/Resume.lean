import Libp2px.RelayFile.Order

/-!
# A resumed file

`HandleFileStream` resumes a `.part` file behind its last chunk, and counts that one also if it is not complete.  The
chunks that follow complete the file if the `.part` file ends with a chunk; otherwise the rest of its last chunk is
never sent, and zeros are left in its place.
-/

namespace Libp2px.RelayFile

open Chunks

theorem arrivals_of_nodup {l : List Nat} (h : l.Nodup) : arrivals l = l := by
  induction l using List.reverseRecOn with
  | nil => rfl
  | append_singleton l j ih =>
    have hcons : (j :: l).Nodup := List.nodup_append_comm.1 h
    obtain ⟨hj, hl⟩ := List.nodup_cons.1 hcons
    rw [arrivals_append, ih hl, if_neg hj]

section

variable {env : Env} {F : List Byte} {c k : Nat} {fs : FS} {s : Session}

/-- The frames of the chunks from `k` on, in order. -/
def Rest (env : Env) (F : List Byte) (c k : Nat) (s : Session) (frames : List Frame) : Prop :=
  List.Forall₂ (fun f j => s.Carries env f j (chunk c F j)) frames (List.range' k (count c F.length - k))

theorem Accepted.complete (h : Accepted env F c k fs s) (hc : 0 < c) (hF : F.length < 2 ^ 63)
    (hk : k < count c F.length) {frames : List Frame} (hframes : Rest env F c k s frames) :
    (feed env fs s frames).1.read (s.tmpPath env) = some F := by
  have hn : count c F.length < 2 ^ 63 := (count_le hc F.length).trans_lt hF
  have hseqs : ∀ j ∈ [] ++ List.range' k (count c F.length - k), k ≤ j ∧ j < count c F.length := by
    intro j hj
    rw [List.nil_append, List.mem_range'_1] at hj
    omega
  obtain ⟨last, -, hfed⟩ := Fed.feed h.total hn hframes hseqs hk.le (AckState.nil hk) (h.fed hk hc)
  obtain ⟨i, hdir, hcontent, -⟩ := hfed.part
  rw [List.nil_append, arrivals_of_nodup List.nodup_range', take_append_flatMap_range, Nat.add_sub_cancel' hk.le,
    List.take_of_length_le (le_count_mul hc F.length)] at hcontent
  unfold Files.System.read
  rw [hdir, ← hcontent]
  rfl

theorem feed_rest_of_le (hk : count c F.length ≤ k) {frames : List Frame} (hframes : Rest env F c k s frames) :
    feed env fs s frames = (fs, s) := by
  unfold Rest at hframes
  rw [Nat.sub_eq_zero_of_le hk] at hframes
  cases hframes
  rfl

end

/-- The offset that ACCEPT names lies within what is there, and the chunks from it on complete the file, exactly if
the `.part` file ends with a chunk or is complete, or was created anew. -/
theorem resume_continues_iff {env : Env} {F P : List Byte} {c : Nat} {fs₀ : FS} {s₀ : Session} {openable created : Bool}
    {x y z : FS × Session × List Reply} (hc : 0 < c) (hF : F.length < 2 ^ 63) (hP : P <+: F)
    (hoffset : 0 < s₀.init.offset) (hchunk : s₀.init.chunkSize = c) (htotal : s₀.init.totalChunks = count c F.length)
    (hpart : fs₀.read (s₀.tmpPath env) = some P) (hbegin : s₀.step env fs₀ (.begin true openable) = some x)
    (hprepare : x.2.1.step env x.1 (.prepare created) = some y)
    (haccept : y.2.1.step env y.1 (.accept true) = some z) :
    ∃ k : Nat, z.2.2 = [.accept k] ∧
      (((k * c ≤ P.length ∨ k = count c F.length ∧ P = F) ∧
          ∀ frames, Rest env F c k z.2.1 frames →
            (feed env z.1 z.2.1 frames).1.read (s₀.tmpPath env) = some F) ↔
        (openable = true → c ∣ P.length ∨ P = F)) := by
  obtain ⟨k, hreply, h⟩ :=
    started_of_steps hc ((count_le hc F.length).trans_lt hF) hchunk (by omega) hbegin hprepare haccept
  refine ⟨k, hreply, ?_⟩
  have htmp : s₀.tmpPath env = z.2.1.tmpPath env := by
    unfold Session.tmpPath Session.savePath
    rw [h.init]
  rw [htmp] at hpart ⊢
  obtain ⟨i, cursor, hdir, -, ⟨⟨-, hopen⟩, hfs, hk, -⟩ | ⟨hfresh, hempty, rfl, -⟩⟩ := h.part
  · -- the file that is there is resumed
    rw [← hfs] at hpart
    have hcontent : z.1.content i = P := by
      unfold Files.System.read at hpart
      rw [hdir] at hpart
      exact Option.some.inj hpart
    rw [hcontent] at hk
    have hupper := le_count_mul hc P.length
    rw [← hk] at hupper
    constructor
    · rintro ⟨hle | ⟨-, hall⟩, -⟩ -
      · exact .inl ⟨k, by rw [Nat.mul_comm]; omega⟩
      · exact .inr hall
    · intro hcond
      by_cases hall : P = F
      · have hlast : k = count c F.length := by rw [hk, hall]
        refine ⟨.inr ⟨hlast, hall⟩, fun frames hframes => ?_⟩
        rw [feed_rest_of_le hlast.ge hframes, hpart, hall]
      · obtain ⟨q, hq⟩ := (hcond hopen).resolve_right hall
        -- no byte is missing before the next chunk
        have hend : k * c = P.length := by
          have hkq : k = q := by
            rw [hk, hq]
            unfold count
            rw [Nat.mul_div_cancel_left q hc, Nat.mul_mod_right, if_neg (by simp)]
            rfl
          rw [hkq, hq, Nat.mul_comm]
        have htake : F.take (k * c) = P := by
          rw [hend]
          exact (List.prefix_iff_eq_take.1 hP).symm
        have hshort : P.length < F.length := by
          by_contra hge
          exact hall (hP.eq_of_length_le (Nat.not_lt.1 hge))
        have haccepted := h.accepted hc hF htotal ⟨P, hpart, htake ▸ List.prefix_rfl⟩
        refine ⟨.inl hend.le, fun frames hframes => ?_⟩
        exact haccepted.complete hc hF ((lt_count_iff hc).2 (by omega)) hframes
  · -- the file is created anew
    have hclosed : ¬openable = true := by
      rcases hfresh with hno | hnone
      · exact fun hopen => hno ⟨hoffset, hopen⟩
      · unfold Files.System.read at hpart
        rw [hnone] at hpart
        cases hpart
    have hnow : z.1.read (z.2.1.tmpPath env) = some [] := by
      unfold Files.System.read
      rw [hdir, ← hempty]
      rfl
    refine iff_of_true ⟨.inl (by omega), fun frames hframes => ?_⟩ fun hopen => absurd hopen hclosed
    by_cases hk : 0 < count c F.length
    · exact (h.accepted hc hF htotal ⟨[], hnow, by simp⟩).complete hc hF hk hframes
    · rw [feed_rest_of_le (by omega) hframes, hnow]
      have hnil : ¬0 * c < F.length := fun hlt => hk ((lt_count_iff hc).2 hlt)
      rw [List.eq_nil_of_length_eq_zero (by omega : F.length = 0)]

def resuming (F : List Byte) (c : Nat) : Session := { init := plainInit F c }

def holding (P : List Byte) : FS := .ofFiles fun _ => some P

theorem resume_continues_byte :
    ∃ x y z, (resuming [1, 2] 1).step plainEnv (holding [1]) (.begin true true) = some x ∧
      x.2.1.step plainEnv x.1 (.prepare true) = some y ∧ y.2.1.step plainEnv y.1 (.accept true) = some z ∧
      z.2.2 = [.accept 1] ∧
      ∀ frames, Rest plainEnv [1, 2] 1 1 z.2.1 frames →
        (feed plainEnv z.1 z.2.1 frames).1.read ((resuming [1, 2] 1).tmpPath plainEnv) = some [1, 2] := by
  refine ⟨_, _, _, rfl, rfl, rfl, rfl, ?_⟩
  obtain ⟨k, hk, hiff⟩ := resume_continues_iff (F := [1, 2]) (P := [1]) (c := 1) (by decide) (by decide) ⟨[2], rfl⟩
    (by decide) rfl rfl rfl
    (show (resuming [1, 2] 1).step plainEnv (holding [1]) (.begin true true) = some _ from rfl)
    (show Session.step plainEnv _ _ (.prepare true) = some _ from rfl) rfl
  have hone : k = 1 := by
    have heq : (1 : Int) = k := Reply.accept.inj (List.singleton_inj.1 hk)
    omega
  rw [hone] at hiff
  exact (hiff.2 fun _ => .inl (by decide)).2

/-- One byte of a chunk of two is there: the transfer goes on with the second chunk, and the second byte is lost. -/
theorem resume_skips_byte :
    ∃ x y z, (resuming [1, 2, 3, 4] 2).step plainEnv (holding [1]) (.begin true true) = some x ∧
      x.2.1.step plainEnv x.1 (.prepare true) = some y ∧ y.2.1.step plainEnv y.1 (.accept true) = some z ∧
      z.2.2 = [.accept 1] ∧ Rest plainEnv [1, 2, 3, 4] 2 1 z.2.1 [plainFrame [1, 2, 3, 4] 2 1] ∧
      (feed plainEnv z.1 z.2.1 [plainFrame [1, 2, 3, 4] 2 1]).1.read ((resuming [1, 2, 3, 4] 2).tmpPath plainEnv) =
        some [1, 0, 3, 4] :=
  ⟨_, _, _, rfl, rfl, rfl, rfl, .cons ⟨rfl, rfl⟩ .nil, rfl⟩

end Libp2px.RelayFile
