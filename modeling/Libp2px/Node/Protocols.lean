import Mathlib.Data.List.DropRight
import Mathlib.Logic.Function.Basic

/-!
# The registry of protocols

`p2put/user_protocols.go`: `RegisterProtocol` and `UnregisterProtocol`, and `replayProtocols`, which fills a host that is
created later.  A wildcard is registered under the part of its name up to the last slash.  `UnregisterProtocol` does not
know of that, and `replayProtocols` takes every id that ends with a slash for a wildcard.
-/

namespace Libp2px.Node.Protocols

abbrev ID := List Char

def baseProtocolPath : ID := "/d2hub/".toList

def fullProtoID (name : List Char) : ID := baseProtocolPath ++ if name.head? = some '/' then name.tail else name

/-- The name up to its last slash: `name[:strings.LastIndex(name, "/")+1]`. -/
def upToSlash (name : List Char) : List Char := name.rdropWhile (· ≠ '/')

/-- The handlers of a host by their ids; with `true` a handler answers every id that begins with its own. -/
abbrev Table (H : Type) := ID → Option (H × Bool)

structure State (H : Type) where
  registry : ID → Option H
  host : Option (Table H)

inductive RegisterError
  | noBase (name : List Char)
  | registered (pid : ID)

/-- The arguments of `RegisterProtocol`. -/
structure Call (H : Type) where
  name : List Char
  handler : H
  wildcard : Bool

variable {H : Type}

def Call.pid (c : Call H) : ID := fullProtoID (if c.wildcard then upToSlash c.name else c.name)

/-- A wildcard needs a slash, and not only as its first character. -/
def Call.hasBase (c : Call H) : Bool := !c.wildcard || 1 < (upToSlash c.name).length

def registerProtocol (s : State H) (c : Call H) : Except RegisterError (State H) :=
  if c.hasBase then
    if (s.registry c.pid).isSome then .error (.registered c.pid)
    else .ok ⟨Function.update s.registry c.pid (some c.handler),
      s.host.map (Function.update · c.pid (some (c.handler, c.wildcard)))⟩
  else .error (.noBase c.name)

def unregisterProtocol (s : State H) (name : List Char) : State H where
  registry := Function.update s.registry (fullProtoID name) none
  host := s.host.map (Function.update · (fullProtoID name) none)

def endsWithSlash (pid : ID) : Bool := pid.getLast? = some '/'

/-- `replayProtocols`; the loop sets every id of the registry once, so its order does not matter. -/
def replayProtocols (registry : ID → Option H) (table : Table H) : Table H := fun pid =>
  match registry pid with
  | some h => some (h, endsWithSlash pid)
  | none => table pid

def Answers (table : Table H) (pid proto : ID) : Prop :=
  match table pid with
  | some (_, true) => pid <+: proto
  | some (_, false) => proto = pid
  | none => False

variable {s t : State H} {c : Call H}

theorem registerProtocol_ok (h : registerProtocol s c = .ok t) :
    c.hasBase = true ∧ s.registry c.pid = none ∧ t = ⟨Function.update s.registry c.pid (some c.handler),
      s.host.map (Function.update · c.pid (some (c.handler, c.wildcard)))⟩ := by
  unfold registerProtocol at h
  split at h
  · rename_i hbase
    split at h
    · cases h
    · rename_i hno
      exact ⟨hbase, by simpa using hno, (Except.ok.inj h).symm⟩
  · cases h

theorem pid_eq_iff (h : c.hasBase = true) :
    c.pid = fullProtoID c.name ↔ (c.wildcard = true → upToSlash c.name = c.name) := by
  unfold Call.pid
  cases hw : c.wildcard with
  | false => simp
  | true =>
    obtain ⟨rest, hrest⟩ : upToSlash c.name <+: c.name := List.rdropWhile_prefix _ _
    cases hu : upToSlash c.name with
    | nil => simp [Call.hasBase, hw, hu] at h
    | cons a u =>
      rw [← hrest, hu, fullProtoID, fullProtoID]
      by_cases ha : a = '/' <;> simp [ha]

theorem endsWithSlash_wildcard (h : c.hasBase = true) (hw : c.wildcard = true) : endsWithSlash c.pid = true := by
  have hlen : 1 < (upToSlash c.name).length := by simpa [Call.hasBase, hw] using h
  have hne : upToSlash c.name ≠ [] := List.ne_nil_of_length_pos (by omega)
  have hlast : ¬decide ((upToSlash c.name).getLast hne ≠ '/') = true := List.rdropWhile_last_not (· ≠ '/') _ hne
  rw [decide_eq_true_eq, not_not] at hlast
  simp only [Call.pid, hw, if_true]
  rw [← List.dropLast_append_getLast hne, hlast] at hlen ⊢
  cases hu : (upToSlash c.name).dropLast with
  | nil => simp [hu] at hlen
  | cons a u => by_cases ha : a = '/' <;> simp [endsWithSlash, fullProtoID, ha, List.getLast?_cons]

theorem update_none_iff {β : Type} {f : ID → Option β} {pid : ID} (b : Option β) :
    Function.update (Function.update f pid b) pid none = f ↔ f pid = none := by
  rw [Function.update_idem, Function.update_eq_iff]
  exact ⟨fun h => h.1.symm, fun h => ⟨h.symm, fun _ _ => rfl⟩⟩

/-- `UnregisterProtocol` undoes a registration exactly if the name was not cut short, and the host had no handler for the
id that the registry did not know. -/
theorem unregister_undoes_iff (h : registerProtocol s c = .ok t) :
    (unregisterProtocol t c.name = s ∧ ∃ u, registerProtocol (unregisterProtocol t c.name) c = .ok u) ↔
      (c.wildcard = true → upToSlash c.name = c.name) ∧ ∀ table ∈ s.host, table c.pid = none := by
  obtain ⟨hbase, hnew, rfl⟩ := registerProtocol_ok h
  rw [← pid_eq_iff hbase]
  constructor
  · rintro ⟨hs, -⟩
    have heq : c.pid = fullProtoID c.name := by
      by_contra hne
      have hat := congrFun (congrArg State.registry hs) c.pid
      simp [unregisterProtocol, hne, hnew] at hat
    refine ⟨heq, fun table ht => (update_none_iff (some (c.handler, c.wildcard))).1 ?_⟩
    simpa [unregisterProtocol, Option.mem_def.1 ht, ← heq] using congrArg State.host hs
  · rintro ⟨heq, hno⟩
    have hs : unregisterProtocol ⟨Function.update s.registry c.pid (some c.handler),
        s.host.map (Function.update · c.pid (some (c.handler, c.wildcard)))⟩ c.name = s := by
      obtain ⟨registry, host⟩ := s
      simp only [unregisterProtocol, ← heq, State.mk.injEq]
      refine ⟨(update_none_iff _).2 hnew, ?_⟩
      cases host with
      | none => rfl
      | some table => exact congrArg some ((update_none_iff _).2 (hno table rfl))
    exact ⟨hs, _, by rw [hs]; exact h⟩

theorem unregister_undoes_plain :
    let c : Call Unit := ⟨"echo/1.0".toList, (), false⟩
    ∃ t, registerProtocol ⟨fun _ => none, none⟩ c = .ok t ∧ unregisterProtocol t c.name = ⟨fun _ => none, none⟩ :=
  ⟨_, rfl, ((unregister_undoes_iff (s := ⟨fun _ => none, none⟩) (c := ⟨"echo/1.0".toList, (), false⟩) rfl).2
    ⟨Bool.noConfusion, by simp⟩).1⟩

/-- A wildcard whose name goes on after the last slash stays registered. -/
theorem wildcard_stays :
    let c : Call Unit := ⟨"tunnel/1.0".toList, (), true⟩
    ∃ t, registerProtocol ⟨fun _ => none, some fun _ => none⟩ c = .ok t ∧
      ((unregisterProtocol t c.name).registry "/d2hub/tunnel/".toList).isSome = true ∧
      registerProtocol (unregisterProtocol t c.name) c = .error (.registered "/d2hub/tunnel/".toList) :=
  ⟨_, rfl, rfl, rfl⟩

/-! ### A host that is created later -/

theorem registerAll_ok {calls : List (Call H)} (h : calls.foldlM registerProtocol s = .ok t) :
    (∀ pid, (s.registry pid).isSome → t.registry pid = s.registry pid ∧ t.host.map (· pid) = s.host.map (· pid)) ∧
      ∀ c ∈ calls, c.hasBase = true ∧ t.registry c.pid = some c.handler ∧
        t.host.map (· c.pid) = s.host.map fun _ => some (c.handler, c.wildcard) := by
  induction calls generalizing s with
  | nil =>
    cases h
    simp
  | cons c calls ih =>
    rw [List.foldlM_cons] at h
    cases hr : registerProtocol s c with
    | error err =>
      rw [hr] at h
      cases h
    | ok s' =>
      rw [hr] at h
      obtain ⟨hbase, hnew, rfl⟩ := registerProtocol_ok hr
      obtain ⟨hold, hall⟩ := ih h
      refine ⟨fun pid hpid => ?_, List.forall_mem_cons.2 ⟨⟨hbase, ?_⟩, fun d hd => ?_⟩⟩
      · have hne : pid ≠ c.pid := fun heq => by simp [heq, hnew] at hpid
        simpa [hne, Function.comp_def] using hold pid (by simpa [hne] using hpid)
      · simpa [Function.comp_def] using hold c.pid (by simp)
      · simpa [Function.comp_def] using hall d hd

theorem answers_iff {table : Table H} {pid : ID} {h : H} {b : Bool} (hat : table pid = some (h, b)) (proto : ID) :
    Answers table pid proto ↔ if b then pid <+: proto else proto = pid := by
  unfold Answers
  cases b <;> simp [hat]

end Libp2px.Node.Protocols
