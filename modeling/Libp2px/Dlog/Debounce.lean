import Libp2px.Lib.Transition

/-!
# The debounced logger

`dlog/ddlog.go`: equal lines that come within a second are merged into one entry with a count.  An entry is printed by
the closure that the debounce library runs after a second without a new line, when a line with another key comes, or at
exit.  A closure that has been overtaken by a later call still runs, and does nothing: its generation or its entry is not
the current one.

The lines that were logged are those of the entries printed so far, each as often as its count says, followed by those of
the pending entry (`Inv.lines`); and while an entry is pending, the closure scheduled last will print it
(`lines_neither_lost_nor_repeated`).
-/

namespace Libp2px.Dlog

open Transition

/-- `debounceDelay`, in nanoseconds. -/
def debounceDelay : Int := 10 ^ 9

/-- `ddEntry`.  Pointers to entries are compared, so an entry has an address. -/
structure DdEntry where
  addr : Nat
  firstFull : String
  count : Nat
  firstAt : Int
  /-- Ghost: the key of the lines that the entry counts. -/
  key : String
  deriving DecidableEq

/-- The closure `func() { d.flush(gen, entry) }`. -/
structure Closure where
  gen : BitVec 64
  entry : Nat
  deriving DecidableEq

structure DDLogger where
  curKey : String := ""
  cur : Option DdEntry := none
  gen : BitVec 64 := 0
  deriving DecidableEq

/-- A logger, the entries allocated, the closures given to the debounce library and those run, and what was printed.
-/
structure World where
  logger : DDLogger := {}
  allocated : Nat := 0
  scheduled : List Closure := []
  ran : List Nat := []
  printed : List DdEntry := []
  /-- Ghost: the keys of the calls of `Printf`. -/
  calls : List String := []
  deriving DecidableEq

/-- `filepath.Base` and the format `15:04:05` of a time. -/
structure Env where
  base : String → String
  format : Int → String

/-- A call of `Printf`: the result of `runtime.Caller`, the flag `Lshortfile`, the formatted message and the clock. -/
structure Call where
  caller : Option (String × Int)
  shortfile : Bool := false
  msg : String
  now : Int

namespace Call

def file (env : Env) (c : Call) : String :=
  let file := (c.caller.getD ("???", 0)).1
  if c.shortfile then env.base file else file

def line (c : Call) : Int := (c.caller.getD ("???", 0)).2

def key (env : Env) (c : Call) : String := c.file env ++ ":" ++ toString c.line ++ ": " ++ c.msg

def full (env : Env) (c : Call) : String :=
  env.format c.now ++ " " ++ c.file env ++ ":" ++ toString c.line ++ ": " ++ c.msg

/-- A key is never the empty string that stands for no pending entry. -/
theorem key_ne_empty (env : Env) (c : Call) : c.key env ≠ "" := by
  simp [key]

end Call

/-- What `printEntry` writes. -/
def DdEntry.line (e : DdEntry) : String :=
  if e.count > 1 then e.firstFull ++ " [x" ++ toString e.count ++ "]\n" else e.firstFull ++ "\n"

namespace World

def printEntry (e : DdEntry) (w : World) : World := { w with printed := w.printed ++ [e] }

def stderr (w : World) : List String := w.printed.map DdEntry.line

def trig (f : Closure) (w : World) : World := { w with scheduled := w.scheduled ++ [f] }

/-- `Printf` when the line is counted in the pending entry. -/
def merge (e : DdEntry) (w : World) : World :=
  let gen := w.logger.gen + 1
  let w := { w with logger := { w.logger with cur := some { e with count := e.count + 1 }, gen := gen } }
  w.trig ⟨gen, e.addr⟩

/-- `Printf` when the line starts an entry. -/
def startEntry (key full : String) (now : Int) (w : World) : World :=
  let gen := w.logger.gen + 1
  let entry : DdEntry := { addr := w.allocated, firstFull := full, count := 1, firstAt := now, key := key }
  let w := { w with logger := { curKey := key, cur := some entry, gen := gen }, allocated := w.allocated + 1 }
  w.trig ⟨gen, entry.addr⟩

/-- `Printf`; `none` where the pending entry would be looked at without there being one, which is a panic. -/
def printf (env : Env) (c : Call) (w : World) : Option World :=
  let w := { w with calls := w.calls ++ [c.key env] }
  match w.logger.cur with
  | some e =>
    if c.key env = w.logger.curKey ∧ c.now - e.firstAt < debounceDelay then some (w.merge e)
    else some ((w.printEntry e).startEntry (c.key env) (c.full env) c.now)
  | none => if c.key env = w.logger.curKey then none else some (w.startEntry (c.key env) (c.full env) c.now)

/-- The end of `ExitFlush` and of `flush`: the pending entry is printed. -/
def flushCur (e : DdEntry) (w : World) : World :=
  let w := w.printEntry e
  { w with logger := { w.logger with cur := none, curKey := "" } }

def exitFlush (w : World) : World :=
  match w.logger.cur with
  | some e => w.flushCur e
  | none => w

def flush (f : Closure) (w : World) : World :=
  match w.logger.cur with
  | some e => if f.gen ≠ w.logger.gen ∨ e.addr ≠ f.entry then w else w.flushCur e
  | none => w

/-- The debounce library runs the closure that was scheduled as the `i`-th; it runs each at most once. -/
def fire (i : Nat) (w : World) : Option World :=
  if i ∈ w.ran then none
  else w.scheduled[i]?.map fun f => ({ w with ran := i :: w.ran }).flush f

end World

inductive Action
  | printf (c : Call)
  | fire (i : Nat)
  | exitFlush

namespace World

def next (env : Env) (w : World) : Action → Option World
  | .printf c => w.printf env c
  | .fire i => w.fire i
  | .exitFlush => some w.exitFlush

def system (env : Env) : System World Action := .ofNext (fun w => w = {}) (next env)

/-! ### The invariant -/

/-- The entries in the order in which they were made: the printed ones and the pending one. -/
def entries (w : World) : List DdEntry := w.printed ++ w.logger.cur.toList

structure Inv (w : World) : Prop where
  lines : w.calls = w.entries.flatMap fun e => List.replicate e.count e.key
  addrs : w.entries.map (·.addr) = List.range w.allocated
  curKey : w.logger.curKey = (w.logger.cur.map (·.key)).getD ""
  last : ∀ e, w.logger.cur = some e → ∃ fs, w.scheduled = fs ++ [⟨w.logger.gen, e.addr⟩] ∧ fs.length ∉ w.ran
  ran : ∀ i ∈ w.ran, i < w.scheduled.length

theorem inv_start : Inv {} := ⟨rfl, rfl, rfl, (fun _ h => nomatch h), (fun _ h => nomatch h)⟩

variable {w : World}

theorem Inv.length_not_mem_ran (h : Inv w) : w.scheduled.length ∉ w.ran := fun hmem => lt_irrefl _ (h.ran _ hmem)

theorem Inv.ran_trig (h : Inv w) (f : Closure) : ∀ i ∈ w.ran, i < (w.scheduled ++ [f]).length := by
  intro i hi
  have := h.ran i hi
  rw [List.length_append]
  omega

theorem Inv.merge (h : Inv w) {e : DdEntry} (he : w.logger.cur = some e) :
    Inv (({ w with calls := w.calls ++ [e.key] }).merge e) := by
  obtain ⟨hlines, haddrs, hkey, -, -⟩ := id h
  simp only [entries, he, Option.toList_some, List.flatMap_append, List.map_append] at hlines haddrs
  refine ⟨?_, ?_, ?_, ?_, h.ran_trig _⟩
  · simp [World.merge, trig, entries, hlines, List.replicate_succ']
  · simpa [World.merge, trig, entries] using haddrs
  · simpa [World.merge, trig, he] using hkey
  · intro e' he'
    obtain rfl := Option.some.inj he'
    exact ⟨w.scheduled, rfl, h.length_not_mem_ran⟩

theorem Inv.startEntry (h : Inv w) (he : w.logger.cur = none) (key full : String) (now : Int) :
    Inv (({ w with calls := w.calls ++ [key] }).startEntry key full now) := by
  obtain ⟨hlines, haddrs, -, -, -⟩ := id h
  simp only [entries, he, Option.toList_none, List.append_nil] at hlines haddrs
  refine ⟨?_, ?_, rfl, ?_, h.ran_trig _⟩
  · simp [World.startEntry, trig, entries, hlines]
  · simp [World.startEntry, trig, entries, haddrs, List.range_succ]
  · intro e' he'
    obtain rfl := Option.some.inj he'
    exact ⟨w.scheduled, rfl, h.length_not_mem_ran⟩

theorem Inv.flushCur (h : Inv w) {e : DdEntry} (he : w.logger.cur = some e) {ran : List Nat}
    (hran : ∀ i ∈ ran, i < w.scheduled.length) : Inv (({ w with ran := ran }).flushCur e) := by
  have hsame : (({ w with ran := ran }).flushCur e).entries = w.entries := by
    simp [World.flushCur, printEntry, entries, he]
  refine ⟨?_, ?_, rfl, (fun _ h => nomatch h), hran⟩
  · rw [hsame]
    exact h.lines
  · rw [hsame]
    exact h.addrs

theorem Inv.printf (h : Inv w) {env : Env} {c : Call} {w' : World} (hp : w.printf env c = some w') : Inv w' := by
  unfold World.printf at hp
  simp only at hp
  split at hp
  · rename_i e he
    split at hp
    · rename_i hsame
      obtain rfl := Option.some.inj hp
      have hkey := h.curKey
      rw [he] at hkey
      rw [hsame.1, hkey]
      exact h.merge he
    · -- the pending entry is printed first
      obtain rfl := Option.some.inj hp
      exact (h.flushCur he h.ran).startEntry rfl (c.key env) (c.full env) c.now
  · rename_i he
    split at hp
    · cases hp
    · obtain rfl := Option.some.inj hp
      exact h.startEntry he (c.key env) (c.full env) c.now

theorem Inv.isSome_printf (h : Inv w) (env : Env) (c : Call) : (w.printf env c).isSome = true := by
  unfold World.printf
  simp only
  split
  · split <;> rfl
  · rename_i he
    have hkey := h.curKey
    rw [he] at hkey
    rw [if_neg fun heq => c.key_ne_empty env (heq.trans hkey)]
    rfl

theorem Inv.exitFlush (h : Inv w) : Inv w.exitFlush := by
  unfold World.exitFlush
  split
  · rename_i e he
    exact h.flushCur he h.ran
  · exact h

theorem Inv.fire (h : Inv w) {i : Nat} {w' : World} (hf : w.fire i = some w') : Inv w' := by
  unfold World.fire at hf
  split at hf
  · cases hf
  · obtain ⟨f, hget, rfl⟩ := Option.map_eq_some_iff.1 hf
    have hran : ∀ j ∈ i :: w.ran, j < w.scheduled.length := by
      intro j hj
      rcases List.mem_cons.1 hj with rfl | hj
      · exact (List.getElem?_eq_some_iff.1 hget).1
      · exact h.ran j hj
    unfold flush
    split
    · rename_i e he
      split
      · -- the closure is not the one scheduled last, whose generation and entry are the current ones
        rename_i hstale
        refine { h with last := ?_, ran := hran }
        intro e' he'
        obtain rfl := Option.some.inj (he.symm.trans he')
        obtain ⟨fs, hfs, hnot⟩ := h.last e he
        refine ⟨fs, hfs, fun hmem => ?_⟩
        rcases List.mem_cons.1 hmem with heq | hmem
        · rw [hfs, ← heq, List.getElem?_concat_length] at hget
          obtain rfl := Option.some.inj hget
          exact hstale.elim (fun hne => hne rfl) fun hne => hne rfl
        · exact hnot hmem
      · exact h.flushCur he hran
    · rename_i he
      exact { h with last := (fun e' he' => nomatch he.symm.trans he'), ran := hran }

theorem Inv.reach {env : Env} (hr : (system env).Reach anyStep w) : Inv w := by
  refine hr.invariant (I := Inv) ?_ ?_
  · rintro w rfl
    exact inv_start
  · intro w a w' _ h _ hs
    cases a with
    | printf c => exact h.printf hs
    | fire i => exact h.fire hs
    | exitFlush =>
      obtain rfl := Option.some.inj hs
      exact h.exitFlush

/-- Every call of `Printf` returns. The calls so far are counted by the entries printed and the pending one, whose
closure was scheduled last and has not run. -/
theorem lines_neither_lost_nor_repeated {env : Env} (hr : (system env).Reach anyStep w) :
    (∀ c, (w.printf env c).isSome = true) ∧
      w.calls.length = (w.printed.map (·.count)).sum + (w.logger.cur.map (·.count)).getD 0 ∧
      ∀ e, w.logger.cur = some e →
        w.scheduled.getLast? = some ⟨w.logger.gen, e.addr⟩ ∧ w.scheduled.length - 1 ∉ w.ran := by
  have h := Inv.reach hr
  refine ⟨fun c => h.isSome_printf env c, ?_, ?_⟩
  · rw [h.lines, List.length_flatMap]
    cases hcur : w.logger.cur <;> simp [entries, hcur]
  · intro e he
    obtain ⟨fs, hfs, hnot⟩ := h.last e he
    rw [hfs]
    simpa using hnot

/-- Two equal lines and another one; the closure of the first call runs late and does nothing. -/
theorem lines_neither_lost_nor_repeated_three :
    ∃ w, (system ⟨id, fun _ => "00:00:00"⟩).Reach anyStep w ∧
      w.stderr = ["00:00:00 a.go:1: x [x2]\n"] ∧ w.calls = ["a.go:1: x", "a.go:1: x", "b.go:2: y"] ∧
      w.calls.length = (w.printed.map (·.count)).sum + (w.logger.cur.map (·.count)).getD 0 := by
  let x (now : Int) : Call := { caller := some ("a.go", 1), msg := "x", now := now }
  let y (now : Int) : Call := { caller := some ("b.go", 2), msg := "y", now := now }
  let acts : List Action := [.printf (x 0), .printf (x 5), .fire 0, .printf (y 9), .fire 1]
  have hr : (system ⟨id, fun _ => "00:00:00"⟩).Reach anyStep
      ((exec (next ⟨id, fun _ => "00:00:00"⟩) {} acts).getD {}) :=
    (System.Reach.init rfl).steps (exec_steps_getD (by decide +kernel) (execMeets_anyStep _ _ _))
  exact ⟨_, hr, by decide +kernel, by decide +kernel, (lines_neither_lost_nor_repeated hr).2.1⟩

end World

end Libp2px.Dlog
