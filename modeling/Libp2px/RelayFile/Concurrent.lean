import Libp2px.RelayFile.Crash

/-!
# Sessions in one receive directory

A session works on two paths, its `.part` file and the file that it becomes.  Both come from the name that the peer
chose, so two sessions with one name work on the same two files, and the cleanup of one removes the file of the other.
Sessions whose paths are all different do not see each other: what a session does depends on its own part of the file
system, and it changes nothing else there.
-/

namespace Libp2px.RelayFile

open Transition

def Init.paths (env : Env) (i : Init) (p : String) : Prop :=
  p = env.finalPath i.name ++ ".relayfile.part" ∨ p = env.finalPath i.name

instance (env : Env) (i : Init) : DecidablePred (i.paths env) := fun _ => inferInstanceAs (Decidable (_ ∨ _))

/-- The file that a stage holds open, besides `tmpFile`. -/
def Stage.file : Stage → Option (String × Nat)
  | opened file => file
  | verifying file _ => some file
  | _ => none

namespace Session

variable {env : Env} {fs : FS} {s : Session} {Q : String → Prop}

/-- The open files of a session were created under paths in `Q`. -/
structure Holds (Q : String → Prop) (s : Session) : Prop where
  tmpFile : ∀ h, s.tmpFile = some h → Q h.inode.1
  stage : ∀ file, s.stage.file = some file → Q file.1

theorem Holds.leave {d : Session} (h : s.Holds Q) (hfile : d.tmpFile = s.tmpFile ∨ d.tmpFile = none)
    (hstage : d.stage.file = none) : d.Holds Q := by
  refine ⟨fun hd hhd => ?_, fun file hst => ?_⟩
  · rcases hfile with heq | heq
    · exact h.tmpFile hd (heq ▸ hhd)
    · rw [heq] at hhd
      cases hhd
  · rw [hstage] at hst
    cases hst

/-! ### What a step does to the file system -/

theorem fs_store (fs : FS) (s : Session) (seq : Int) (data : List Byte) (io : DataIO) :
    (store fs s seq data io).1 = fs ∨
      ∃ h pos bytes, s.tmpFile = some h ∧ (store fs s seq data io).1 = fs.write h.inode pos bytes := by
  unfold store
  split
  · exact .inl rfl
  · rename_i h n hfile
    exact .inr ⟨h, _, _, hfile, rfl⟩
  · rename_i h hfile _
    refine .inr ⟨h, h.cursor, data, hfile, ?_⟩
    simp only
    split
    · rfl
    · exact (acknowledge_frame _ _ _).1

theorem fs_receive (env : Env) (fs : FS) (s : Session) (f : Frame) (io : DataIO) :
    (s.receive env fs f io).1 = fs ∨
      ∃ h pos bytes, s.tmpFile = some h ∧ (s.receive env fs f io).1 = fs.write h.inode pos bytes := by
  unfold receive receiveData
  split
  · exact .inl rfl
  · split
    · split
      · exact .inl rfl
      · split
        · exact .inl rfl
        · exact .inl (acknowledge_frame fs s io).1
        · exact fs_store fs s _ _ io
    · split
      · split <;> exact .inl rfl
      · exact .inl rfl

variable {r : FS × Session × List Reply}

theorem fs_step {a : Act} (h : s.step env fs a = some r) :
    r.1 = fs ∨ r.1 = (fs.create (s.tmpPath env)).1 ∨
      (∃ h pos bytes, s.tmpFile = some h ∧ r.1 = fs.write h.inode pos bytes) ∨
      r.1 = fs.remove (s.tmpPath env) ∨ fs.rename (s.tmpPath env) (s.savePath env) = some r.1 := by
  cases stepped h with
  | created => exact .inr (.inl rfl)
  | received =>
    rcases fs_receive env fs s _ _ with hsame | hwrite
    · exact .inl hsame
    · exact .inr (.inr (.inl hwrite))
  | hashEnd =>
    unfold compare
    left
    split <;> rfl
  | notAccepted | cleaned => exact .inr (.inr (.inr (.inl rfl)))
  | renamed _ hren => exact .inr (.inr (.inr (.inr hren)))
  | _ => exact .inl rfl

/-! ### A step sees its own part of the file system -/

theorem within_step (hw : fs.Within Q) (ht : Q (s.tmpPath env)) {a : Act}
    (hstep : s.step env fs a = some r) : r.1.Within Q := by
  rcases fs_step hstep with heq | heq | ⟨hd, pos, bytes, -, heq⟩ | heq | hren
  · rwa [heq]
  · rw [heq]
    exact (hw.create ht).1
  · rwa [heq]
  · rw [heq]
    exact hw.remove _
  · exact hw.rename (fun _ => ht) hren

theorem Holds.frame {Q' : String → Prop} [DecidablePred Q'] (h : s.Holds Q) (hw : fs.Within Q)
    (ht : Q (s.tmpPath env)) (hs : Q (s.savePath env)) (hnot : ∀ p, Q p → ¬Q' p) {a : Act}
    (hstep : s.step env fs a = some r) : r.1.restrict Q' = fs.restrict Q' := by
  rcases fs_step hstep with heq | heq | ⟨hd, pos, bytes, hfile, heq⟩ | heq | hren
  · rw [heq]
  · rw [heq]
    exact Files.System.restrict_create_of_not (hnot _ ht) fun i hi => hnot _ (hw _ i ht hi)
  · rw [heq]
    exact Files.System.restrict_write_of_not (hnot _ (h.tmpFile hd hfile)) pos bytes
  · rw [heq]
    exact Files.System.restrict_remove_of_not (hnot _ ht)
  · exact Files.System.restrict_rename_of_not (hnot _ ht) (hnot _ hs) hren

theorem Holds.acknowledge (h : s.Holds Q) (fs : FS) (io : DataIO) : (Session.acknowledge fs s io).2.1.Holds Q := by
  obtain ⟨-, -, hfile, hst | ⟨-, hst⟩⟩ := acknowledge_frame fs s io
  · exact ⟨fun hd hhd => h.tmpFile hd (hfile ▸ hhd), fun file heq => h.stage file (hst ▸ heq)⟩
  · exact h.leave (.inl hfile) (by rw [hst]; rfl)

theorem Holds.store (h : s.Holds Q) (hloop : s.stage = .loop) (fs : FS) (seq : Int) (data : List Byte) (io : DataIO) :
    (Session.store fs s seq data io).2.1.Holds Q := by
  have hmove : ∀ hd : Handle, s.tmpFile = some hd → ∀ d : Session, (∃ cursor, d.tmpFile = some { hd with cursor }) →
      d.stage.file = none → d.Holds Q := by
    rintro hd hfile d ⟨cursor, htmp⟩ hstage
    refine ⟨fun hd' hhd' => ?_, fun file hst => ?_⟩
    · rw [htmp] at hhd'
      cases hhd'
      exact h.tmpFile hd hfile
    · rw [hstage] at hst
      cases hst
  unfold Session.store
  split
  · exact h.leave (.inl rfl) rfl
  · rename_i hd n hfile
    exact hmove hd hfile _ ⟨_, rfl⟩ rfl
  · rename_i hd hfile _
    simp only
    split
    · exact hmove hd hfile _ ⟨_, rfl⟩ rfl
    · refine Holds.acknowledge ?_ _ _
      exact hmove hd hfile _ ⟨_, rfl⟩ (by rw [hloop]; rfl)

theorem Holds.receive (h : s.Holds Q) (hloop : s.stage = .loop) (f : Frame) (io : DataIO) :
    (s.receive env fs f io).2.1.Holds Q := by
  unfold Session.receive receiveData
  split
  · exact h.leave (.inl rfl) rfl
  · split
    · split
      · exact h.leave (.inl rfl) rfl
      · split
        · exact h.leave (.inl rfl) rfl
        · exact h.acknowledge fs io
        · exact h.store hloop fs _ _ io
    · split
      · split
        · exact h.leave (.inl rfl) rfl
        · exact h.leave (.inr rfl) rfl
      · exact h

theorem holds_ready {file : String × Nat} {cursor : Nat} (hfile : Q file.1) (htmp : s.tmpFile = some ⟨file, cursor⟩)
    (hst : s.stage = .ready) : s.Holds Q := by
  refine ⟨fun hd hhd => ?_, fun file hfile => ?_⟩
  · cases htmp.symm.trans hhd
    exact hfile
  · rw [hst] at hfile
    cases hfile

theorem Holds.step (h : s.Holds Q) (hw : fs.Within Q) (ht : Q (s.tmpPath env)) {a : Act}
    (hstep : s.step env fs a = some r) : r.2.1.Holds Q := by
  cases stepped hstep with
  | opened =>
    refine ⟨h.tmpFile, fun file hs => ?_⟩
    simp only [Stage.file] at hs
    split at hs
    · exact hw _ file ht hs
    · cases hs
  | resumed _ _ _ hst => exact holds_ready (h.stage _ (by rw [hst]; rfl)) rfl rfl
  | created => exact holds_ready (hw.create ht).2 rfl rfl
  | received hst => exact h.receive hst _ _
  | verifying _ hdir =>
    refine ⟨h.tmpFile, fun file hs => ?_⟩
    cases hs
    exact hw _ _ ht hdir
  | hashed hst =>
    refine ⟨h.tmpFile, fun file hs => ?_⟩
    cases hs
    exact h.stage _ (by rw [hst]; rfl)
  | hashEnd =>
    unfold compare
    split <;> exact h.leave (.inl rfl) rfl
  | notAccepted | cleaned => exact h.leave (.inr rfl) rfl
  | _ => exact h.leave (.inl rfl) rfl

section OwnPart

variable [DecidablePred Q]

/-- The result of a step with the part of the file system. -/
def onPart (Q : String → Prop) [DecidablePred Q] (r : FS × Session × List Reply) : FS × Session × List Reply :=
  (r.1.restrict Q, r.2)

theorem acknowledge_restrict (fs : FS) (s : Session) (io : DataIO) :
    acknowledge (fs.restrict Q) s io = onPart Q (acknowledge fs s io) := by
  obtain ⟨n, hn, heq⟩ := acknowledge_eq fs s io
  obtain ⟨n', hn', heq'⟩ := acknowledge_eq (fs.restrict Q) s io
  cases hn.symm.trans hn'
  rw [heq, heq']
  split
  · split <;> rfl
  · rfl

theorem Holds.store_restrict (h : s.Holds Q) (fs : FS) (seq : Int) (data : List Byte) (io : DataIO) :
    Session.store (fs.restrict Q) s seq data io = onPart Q (Session.store fs s seq data io) := by
  unfold Session.store
  split
  · rfl
  · rename_i hd n hfile
    rw [Files.System.write_restrict (h.tmpFile hd hfile)]
    rfl
  · rename_i hd hfile _
    simp only [Files.System.write_restrict (h.tmpFile hd hfile)]
    split
    · rfl
    · exact acknowledge_restrict _ _ _

theorem Holds.receive_restrict (h : s.Holds Q) (f : Frame) (io : DataIO) :
    s.receive env (fs.restrict Q) f io = onPart Q (s.receive env fs f io) := by
  unfold Session.receive receiveData
  split
  · rfl
  · split
    · split
      · rfl
      · split
        · rfl
        · exact acknowledge_restrict fs s io
        · exact h.store_restrict fs _ _ io
    · split
      · split <;> rfl
      · rfl

theorem prepare_restrict (hw : fs.Within Q) (ht : Q (s.tmpPath env)) {file : Option (String × Nat)}
    (hfile : ∀ i, file = some i → Q i.1) (created : Bool) :
    s.prepare env (fs.restrict Q) file created = onPart Q (s.prepare env fs file created) := by
  unfold prepare
  split
  · rename_i i
    rw [Files.System.content_restrict (hfile i rfl)]
    split
    · rfl
    · split <;> rfl
  · rw [Files.System.create_restrict hw ht]
    split
    · simp only
      split <;> rfl
    · rfl

theorem Holds.step_restrict (h : s.Holds Q) (hw : fs.Within Q) (ht : Q (s.tmpPath env)) (hs : Q (s.savePath env))
    (a : Act) : s.step env (fs.restrict Q) a = (s.step env fs a).map (onPart Q) := by
  unfold Session.step
  split
  · -- begin
    unfold begin
    rw [Files.System.dir_restrict ht]
    split
    · split <;> rfl
    · rfl
  · rename_i file created hstage
    refine congrArg some (prepare_restrict hw ht (fun i hi => ?_) created)
    exact h.stage i (by rw [hstage, hi]; rfl)
  · -- accept
    unfold accept
    rw [Files.System.remove_restrict ht]
    split <;> rfl
  · rename_i f io hstage
    exact congrArg some (h.receive_restrict f io)
  · rfl
  · -- openPart
    unfold openPart
    rw [Files.System.dir_restrict ht]
    split
    · rfl
    · split <;> rfl
  · rename_i file got n hstage
    rw [Files.System.content_restrict (h.stage file (by rw [hstage]; rfl))]
    rfl
  · rename_i file got hstage
    rw [Files.System.content_restrict (h.stage file (by rw [hstage]; rfl))]
    unfold compare
    split
    · split <;> rfl
    · rfl
  · rfl
  · rename_i ok hstage
    rw [Files.System.rename_restrict ht hs]
    cases ok with
    | false => rfl
    | true =>
      cases fs.rename (s.tmpPath env) (s.savePath env) with
      | none => rfl
      | some fs' => rfl
  · rfl
  · split <;> rfl
  · unfold cleanup
    rw [Files.System.remove_restrict ht]
    split <;> rfl
  · rfl
  · rfl

end OwnPart

end Session

/-! ### Runs of several sessions -/

/-- Sessions in one receive directory, and what each of them has sent. -/
structure Shared (ι : Type) where
  fs : FS
  ses : ι → Session
  sent : ι → List Reply

def Init.Apart (env : Env) (i j : Init) : Prop :=
  env.finalPath i.name ++ ".relayfile.part" ≠ env.finalPath j.name ++ ".relayfile.part" ∧
    env.finalPath i.name ++ ".relayfile.part" ≠ env.finalPath j.name ∧
    env.finalPath i.name ≠ env.finalPath j.name ++ ".relayfile.part"

instance (env : Env) (i j : Init) : Decidable (i.Apart env j) := inferInstanceAs (Decidable (_ ∧ _))

theorem Init.Apart.not_paths {env : Env} {i j : Init} (h : i.Apart env j) {p : String} (hj : j.paths env p) :
    ¬i.paths env p := by
  obtain ⟨htmp, hsave, hsave'⟩ := h
  rintro (rfl | rfl)
  · rcases hj with heq | heq
    · exact htmp heq
    · exact hsave heq
  · rcases hj with heq | heq
    · exact hsave' heq
    · exact htmp (by rw [heq])

namespace Shared

variable {ι : Type} {env : Env} {init : ι → Init} {x y : ι} {t t' u : Shared ι}

def start (init : ι → Init) (peer : ι → String) (files : String → Option (List Byte)) : Shared ι where
  fs := .ofFiles files
  ses y := { init := init y, peer := peer y }
  sent _ := []

/-- A session: where it stands, what it has sent, its `.part` file and the file under its name. -/
def outcome (env : Env) (t : Shared ι) (x : ι) : Session × List Reply × Option (List Byte) × Option (List Byte) :=
  (t.ses x, t.sent x, t.fs.read ((t.ses x).tmpPath env), t.fs.read ((t.ses x).savePath env))

def others (env : Env) (init : ι → Init) (x : ι) (p : String) : Prop := ∃ y, y ≠ x ∧ (init y).paths env p

structure Own (env : Env) (init : ι → Init) (x : ι) (t : Shared ι) : Prop where
  init_eq : ∀ y, (t.ses y).init = init y
  mine : (t.ses x).Holds ((init x).paths env)
  rest : ∀ y, y ≠ x → (t.ses y).Holds (others env init x)
  within : t.fs.Within ((init x).paths env)
  within_rest : t.fs.Within (others env init x)

theorem Own.start (env : Env) (init : ι → Init) (peer : ι → String) (files : String → Option (List Byte)) (x : ι) :
    Own env init x (start init peer files) := by
  have hwithin : ∀ Q : String → Prop, (Files.System.ofFiles files).Within Q := by
    intro Q p i hp hi
    obtain ⟨-, -, rfl⟩ := Option.map_eq_some_iff.1 hi
    exact hp
  have hholds : ∀ (Q : String → Prop) y, ((Shared.start init peer files).ses y).Holds Q := by
    intro Q y
    refine ⟨fun hd hhd => ?_, fun file hfile => ?_⟩
    · cases hhd
    · cases hfile
  exact ⟨fun _ => rfl, hholds _ x, fun y _ => hholds _ y, hwithin _, hwithin _⟩

structure Alike (env : Env) (init : ι → Init) (x : ι) (t u : Shared ι) : Prop where
  ses : u.ses x = t.ses x
  sent : u.sent x = t.sent x
  part : u.fs.restrict ((init x).paths env) = t.fs.restrict ((init x).paths env)

theorem Own.paths (h : Own env init x t) (y : ι) :
    (init y).paths env ((t.ses y).tmpPath env) ∧ (init y).paths env ((t.ses y).savePath env) := by
  rw [← h.init_eq y]
  exact ⟨.inl rfl, .inr rfl⟩

variable [DecidableEq ι]

def set (t : Shared ι) (y : ι) (r : FS × Session × List Reply) : Shared ι where
  fs := r.1
  ses := Function.update t.ses y r.2.1
  sent := Function.update t.sent y (t.sent y ++ r.2.2)

def next (env : Env) (t : Shared ι) (m : ι × Act) : Option (Shared ι) := ((t.ses m.1).step env t.fs m.2).map (t.set m.1)

theorem ses_set_self (t : Shared ι) (y : ι) (r : FS × Session × List Reply) : (t.set y r).ses y = r.2.1 :=
  Function.update_self ..

theorem ses_set_of_ne (t : Shared ι) (r : FS × Session × List Reply) (h : x ≠ y) : (t.set y r).ses x = t.ses x :=
  Function.update_of_ne h ..

variable {r : FS × Session × List Reply}

theorem Own.step (h : Own env init x t) (hapart : ∀ y, y ≠ x → (init x).Apart env (init y)) {a : Act}
    (hstep : (t.ses x).step env t.fs a = some r) : Own env init x (t.set x r) := by
  classical
  obtain ⟨htmp, hsave⟩ := h.paths x
  have hnot : ∀ p, (init x).paths env p → ¬others env init x p := by
    rintro p hp ⟨y, hy, hpy⟩
    exact (hapart y hy).not_paths hpy hp
  refine ⟨fun y => ?_, ?_, fun y hy => ?_, Session.within_step h.within htmp hstep,
    h.within_rest.of_restrict (h.mine.frame h.within htmp hsave hnot hstep)⟩
  · by_cases hy : y = x
    · subst hy
      rw [ses_set_self, Session.init_step hstep, h.init_eq y]
    · rw [ses_set_of_ne t r hy, h.init_eq y]
  · rw [ses_set_self]
    exact h.mine.step h.within htmp hstep
  · rw [ses_set_of_ne t r hy]
    exact h.rest y hy

theorem Own.step_other (h : Own env init x t) (hapart : ∀ y, y ≠ x → (init x).Apart env (init y)) (hy : y ≠ x) {a : Act}
    (hstep : (t.ses y).step env t.fs a = some r) :
    Own env init x (t.set y r) ∧
      r.1.restrict ((init x).paths env) = t.fs.restrict ((init x).paths env) := by
  have htmp : others env init x ((t.ses y).tmpPath env) := ⟨y, hy, (h.paths y).1⟩
  have hsave : others env init x ((t.ses y).savePath env) := ⟨y, hy, (h.paths y).2⟩
  have hframe : r.1.restrict ((init x).paths env) = t.fs.restrict ((init x).paths env) := by
    refine (h.rest y hy).frame h.within_rest htmp hsave ?_ hstep
    rintro p ⟨z, hz, hpz⟩
    exact (hapart z hz).not_paths hpz
  refine ⟨⟨fun z => ?_, ?_, fun z hz => ?_, h.within.of_restrict hframe,
    Session.within_step h.within_rest htmp hstep⟩, hframe⟩
  · by_cases hzy : z = y
    · subst hzy
      rw [ses_set_self, Session.init_step hstep, h.init_eq z]
    · rw [ses_set_of_ne t r hzy, h.init_eq z]
  · rw [ses_set_of_ne t r hy.symm]
    exact h.mine
  · by_cases hzy : z = y
    · subst hzy
      rw [ses_set_self]
      exact (h.rest z hz).step h.within_rest htmp hstep
    · rw [ses_set_of_ne t r hzy]
      exact h.rest z hz

theorem Alike.step (h : Alike env init x t u) (hown : Own env init x t) {a : Act}
    (hstep : (t.ses x).step env t.fs a = some r) :
    ∃ r', (u.ses x).step env u.fs a = some r' ∧ Alike env init x (t.set x r) (u.set x r') := by
  obtain ⟨htmp, hsave⟩ := hown.paths x
  have hsame : ((t.ses x).step env u.fs a).map (Session.onPart ((init x).paths env)) =
      some (Session.onPart ((init x).paths env) r) := by
    rw [← hown.mine.step_restrict (hown.within.of_restrict h.part) htmp hsave, h.part,
      hown.mine.step_restrict hown.within htmp hsave, hstep]
    rfl
  obtain ⟨r', hr', heq⟩ := Option.map_eq_some_iff.1 hsame
  obtain ⟨hpart, hrest⟩ := Prod.mk.inj heq
  refine ⟨r', by rw [h.ses]; exact hr', ?_, ?_, hpart⟩
  · rw [ses_set_self, ses_set_self, hrest]
  · show Function.update u.sent x _ x = Function.update t.sent x _ x
    rw [Function.update_self, Function.update_self, h.sent, hrest]

theorem Alike.exec (hapart : ∀ y, y ≠ x → (init x).Apart env (init y)) {moves : List (ι × Act)}
    (h : Alike env init x t u) (hown : Own env init x t) (hexec : exec (next env) t moves = some t') :
    ∃ u', Transition.exec (next env) u (moves.filter (·.1 = x)) = some u' ∧ Alike env init x t' u' ∧
      Own env init x t' := by
  induction moves generalizing t u with
  | nil =>
    cases hexec
    exact ⟨u, rfl, h, hown⟩
  | cons m moves ih =>
    obtain ⟨y, a⟩ := m
    obtain ⟨v, hv, hexec⟩ := Option.bind_eq_some_iff.1 hexec
    obtain ⟨r, hr, rfl⟩ := Option.map_eq_some_iff.1 hv
    by_cases hy : y = x
    · subst hy
      obtain ⟨r', hr', halike⟩ := h.step hown hr
      obtain ⟨u', hu', hrest⟩ := ih halike (hown.step hapart hr) hexec
      refine ⟨u', ?_, hrest⟩
      rw [List.filter_cons_of_pos (by simp)]
      simp only [Transition.exec, next, hr', Option.map_some, Option.bind_some]
      exact hu'
    · obtain ⟨hown', hframe⟩ := hown.step_other hapart hy hr
      have halike : Alike env init x (t.set y r) u := by
        refine ⟨?_, ?_, h.part.trans hframe.symm⟩
        · rw [ses_set_of_ne t r (Ne.symm hy), h.ses]
        · rw [h.sent]
          exact (Function.update_of_ne (Ne.symm hy) ..).symm
      rw [List.filter_cons_of_neg (by simpa using hy)]
      exact ih halike hown' hexec

def sampleEnv : Env := Receiving.peerEnv (Receiving.resumeInit 1 2) (by decide)

/-- Two sessions that resume a file, under one name or under two. -/
def twoInits (other : String) (second : Bool) : Init :=
  { Receiving.resumeInit 1 2 with name := if second then "a" else other }

def oneFile (p : String) : Option (List Byte) := if p = "a.relayfile.part" then some [7] else none

def lateCleanup : List (Bool × Act) :=
  [(false, .begin true true), (false, .prepare true), (false, .accept true), (true, .begin true true),
    (true, .prepare true), (true, .accept true), (false, .readError), (false, .cleanup)]

def runTwo (other : String) (moves : List (Bool × Act)) : Option (Shared Bool) :=
  exec (next sampleEnv) (start (twoInits other) (fun _ => "peer") oneFile) moves

end Shared

end Libp2px.RelayFile
