import Mathlib.Data.List.Basic

/-!
# A file system with open files

Paths name inodes, and an inode keeps its content while it is open, whatever happens to its path.  An inode is called
after the path under which it was created and a count, so two paths never create the same one.
-/

namespace Files

variable {P β : Type}

/-- A file system: what the paths name, what the inodes hold, and how many inodes were created under a path. -/
@[ext]
structure System (P β : Type) where
  dir : P → Option (P × Nat)
  content : P × Nat → List β
  made : P → Nat

/-- The content after bytes were written at a position; a gap before it is filled. -/
def overwrite [Inhabited β] (l : List β) (pos : Nat) (bytes : List β) : List β :=
  if bytes = [] then l
  else (l ++ List.replicate (pos - l.length) default).take pos ++ bytes ++ l.drop (pos + bytes.length)

theorem overwrite_length [Inhabited β] (l bytes : List β) : overwrite l l.length bytes = l ++ bytes := by
  unfold overwrite
  split
  · rename_i hnil
    rw [hnil, List.append_nil]
  · simp

theorem overwrite_nil [Inhabited β] (l : List β) (pos : Nat) : overwrite l pos [] = l := rfl

theorem exists_overwrite_eq [Inhabited β] (l : List β) (pos : Nat) :
    ∃ before : List β, before.length = pos ∧ (pos ≤ l.length → before = l.take pos) ∧
      ∀ bytes : List β, bytes ≠ [] → overwrite l pos bytes = before ++ bytes ++ l.drop (pos + bytes.length) := by
  refine ⟨(l ++ List.replicate (pos - l.length) default).take pos, ?_, ?_, ?_⟩
  · rw [List.length_take, List.length_append, List.length_replicate]
    omega
  · intro hle
    rw [List.take_append_of_le_length hle]
  · intro bytes hne
    unfold overwrite
    rw [if_neg hne]

theorem length_overwrite [Inhabited β] (l : List β) (pos : Nat) {bytes : List β} (h : bytes ≠ []) :
    (overwrite l pos bytes).length = max l.length (pos + bytes.length) := by
  obtain ⟨before, hlen, -, heq⟩ := exists_overwrite_eq l pos
  rw [heq bytes h, List.length_append, List.length_append, hlen, List.length_drop]
  omega

theorem length_overwrite_le [Inhabited β] (l : List β) (pos : Nat) (bytes : List β) :
    l.length ≤ (overwrite l pos bytes).length := by
  by_cases h : bytes = []
  · simp only [h, overwrite_nil, Nat.le_refl]
  · rw [length_overwrite l pos h]
    exact Nat.le_max_left ..

theorem length_overwrite_le_of_le [Inhabited β] {l : List β} {pos n : Nat} {bytes : List β} (hl : l.length ≤ n)
    (hpos : pos + bytes.length ≤ n) : (overwrite l pos bytes).length ≤ n := by
  by_cases h : bytes = []
  · rw [h, overwrite_nil]
    exact hl
  · rw [length_overwrite l pos h]
    exact Nat.max_le.2 ⟨hl, hpos⟩

theorem drop_overwrite [Inhabited β] (l : List β) (pos : Nat) (bytes : List β) :
    (overwrite l pos bytes).drop (pos + bytes.length) = l.drop (pos + bytes.length) := by
  by_cases h : bytes = []
  · rw [h, overwrite_nil]
  · obtain ⟨before, hlen, -, heq⟩ := exists_overwrite_eq l pos
    rw [heq bytes h, ← hlen, ← List.length_append, List.drop_left]

theorem overwrite_overwrite [Inhabited β] (l : List β) (pos : Nat) (a b : List β) :
    overwrite (overwrite l pos a) (pos + a.length) b = overwrite l pos (a ++ b) := by
  by_cases ha : a = []
  · rw [ha, overwrite_nil, List.nil_append, List.length_nil, Nat.add_zero]
  by_cases hb : b = []
  · rw [hb, overwrite_nil, List.append_nil]
  obtain ⟨before, hlen, -, heq⟩ := exists_overwrite_eq l pos
  obtain ⟨front, -, hfront, heq'⟩ := exists_overwrite_eq (overwrite l pos a) (pos + a.length)
  have hle : pos + a.length ≤ (overwrite l pos a).length := by
    rw [length_overwrite l pos ha]
    exact Nat.le_max_right ..
  have htake : front = before ++ a := by
    rw [hfront hle, heq a ha, ← hlen, ← List.length_append, List.take_left]
  have hdrop : (overwrite l pos a).drop (pos + a.length + b.length) = l.drop (pos + a.length + b.length) := by
    rw [← List.drop_drop, drop_overwrite, List.drop_drop]
  rw [heq' b hb, htake, hdrop, heq (a ++ b) (List.append_ne_nil_of_left_ne_nil ha b), List.length_append]
  simp only [List.append_assoc, Nat.add_assoc]

theorem overwrite_eq_self_iff [Inhabited β] (l : List β) (pos : Nat) (bytes : List β) :
    overwrite l pos bytes = l ↔ bytes <+: l.drop pos := by
  by_cases h : bytes = []
  · rw [h, overwrite_nil]
    exact iff_of_true rfl List.nil_prefix
  · obtain ⟨before, hlen, hfront, heq⟩ := exists_overwrite_eq l pos
    rw [heq bytes h]
    constructor
    · intro hself
      rw [← hself, List.append_assoc, ← hlen, List.drop_left]
      exact List.prefix_append ..
    · rintro ⟨rest, hrest⟩
      have hle : pos ≤ l.length := by
        by_contra hgt
        rw [List.drop_eq_nil_of_le (by omega)] at hrest
        exact h (List.append_eq_nil_iff.1 hrest).1
      have hbehind : l.drop (pos + bytes.length) = rest := by
        rw [← List.drop_drop, ← hrest, List.drop_left]
      rw [hfront hle, hbehind, List.append_assoc, hrest, List.take_append_drop]

theorem getElem?_overwrite [Inhabited β] {l : List β} {p : Nat} (h : p < l.length) (pos : Nat) (bytes : List β) :
    (overwrite l pos bytes)[p]? = if pos ≤ p ∧ p < pos + bytes.length then bytes[p - pos]? else l[p]? := by
  unfold overwrite
  split
  · rename_i hnil
    rw [hnil, List.length_nil, if_neg (by omega)]
  · have hlen : ((l ++ List.replicate (pos - l.length) default).take pos).length = pos := by
      rw [List.length_take, List.length_append, List.length_replicate]
      omega
    rcases Nat.lt_or_ge p pos with hlt | hge
    · rw [if_neg (by omega), List.append_assoc, List.getElem?_append_left (by omega), List.getElem?_take_of_lt hlt,
        List.getElem?_append_left h]
    · rcases Nat.lt_or_ge p (pos + bytes.length) with hlt | hge'
      · rw [if_pos ⟨hge, hlt⟩, List.getElem?_append_left (by rw [List.length_append]; omega),
          List.getElem?_append_right (by omega), hlen]
      · rw [if_neg (by omega), List.getElem?_append_right (by rw [List.length_append]; omega), List.length_append, hlen,
          List.getElem?_drop, Nat.add_sub_cancel' hge']

namespace System

def ofFiles (files : P → Option (List β)) : System P β where
  dir p := (files p).map fun _ => (p, 0)
  content i := if i.2 = 0 then (files i.1).getD [] else []
  made _ := 1

def read (fs : System P β) (p : P) : Option (List β) := (fs.dir p).map fs.content

section Basic

variable [DecidableEq P]

def create (fs : System P β) (p : P) : System P β × (P × Nat) :=
  match fs.dir p with
  | some i => ({ fs with content := Function.update fs.content i [] }, i)
  | none =>
    ({ dir := Function.update fs.dir p (some (p, fs.made p))
       content := Function.update fs.content (p, fs.made p) []
       made := Function.update fs.made p (fs.made p + 1) }, (p, fs.made p))

def write [Inhabited β] (fs : System P β) (i : P × Nat) (pos : Nat) (bytes : List β) : System P β :=
  { fs with content := Function.update fs.content i (overwrite (fs.content i) pos bytes) }

/-- Rename a path; `none`: there is no such path. -/
def rename (fs : System P β) (p q : P) : Option (System P β) :=
  match fs.dir p with
  | some i => some { fs with dir := Function.update (Function.update fs.dir p none) q (some i) }
  | none => none

def remove (fs : System P β) (p : P) : System P β := { fs with dir := Function.update fs.dir p none }

theorem dir_create (fs : System P β) (p : P) : (fs.create p).1.dir p = some (fs.create p).2 := by
  unfold create
  cases h : fs.dir p with
  | some i => exact h
  | none => exact Function.update_self ..

theorem content_create (fs : System P β) (p : P) : (fs.create p).1.content (fs.create p).2 = [] := by
  unfold create
  cases fs.dir p with
  | some i => exact Function.update_self ..
  | none => exact Function.update_self ..

theorem content_write [Inhabited β] (fs : System P β) (i : P × Nat) (pos : Nat) (bytes : List β) :
    (fs.write i pos bytes).content i = overwrite (fs.content i) pos bytes := Function.update_self ..

end Basic

/-! ### A part of a file system -/

section Part

variable {Q : P → Prop} {fs : System P β} {p : P} {i : P × Nat}

/-- The part of a file system that belongs to the paths in `Q`. -/
def restrict (Q : P → Prop) [DecidablePred Q] (fs : System P β) : System P β where
  dir p := if Q p then fs.dir p else none
  content i := if Q i.1 then fs.content i else []
  made p := if Q p then fs.made p else 0

/-- The paths in `Q` name inodes that were created under paths in `Q`. -/
def Within (Q : P → Prop) (fs : System P β) : Prop := ∀ p i, Q p → fs.dir p = some i → Q i.1

variable [DecidablePred Q]

theorem dir_restrict (hp : Q p) : (fs.restrict Q).dir p = fs.dir p := if_pos hp

theorem content_restrict (hi : Q i.1) : (fs.restrict Q).content i = fs.content i := if_pos hi

theorem Within.of_restrict {fs' : System P β} (hw : fs.Within Q) (h : fs'.restrict Q = fs.restrict Q) :
    fs'.Within Q := by
  intro p i hp hi
  rw [← dir_restrict hp, h, dir_restrict hp] at hi
  exact hw p i hp hi

theorem read_eq_of_restrict {fs' : System P β} (hw : fs.Within Q) (hp : Q p) (h : fs.restrict Q = fs'.restrict Q) :
    fs.read p = fs'.read p := by
  have hdir : fs.dir p = fs'.dir p :=
    calc fs.dir p = (fs.restrict Q).dir p := (dir_restrict hp).symm
      _ = (fs'.restrict Q).dir p := by rw [h]
      _ = fs'.dir p := dir_restrict hp
  unfold read
  rw [← hdir]
  cases hi : fs.dir p with
  | none => rfl
  | some i =>
    have hQ := hw p i hp hi
    refine congrArg some ?_
    calc fs.content i = (fs.restrict Q).content i := (content_restrict hQ).symm
      _ = (fs'.restrict Q).content i := by rw [h]
      _ = fs'.content i := content_restrict hQ

end Part

section Operations

variable [DecidableEq P] {Q : P → Prop} {fs : System P β} {p q : P} {i : P × Nat}

theorem Within.create (hw : fs.Within Q) (hp : Q p) : (fs.create p).1.Within Q ∧ Q (fs.create p).2.1 := by
  unfold System.create
  cases hdir : fs.dir p with
  | some i => exact ⟨hw, hw p i hp hdir⟩
  | none =>
    refine ⟨fun p' i hp' hi => ?_, hp⟩
    by_cases heq : p' = p
    · subst heq
      simp only [Function.update_self] at hi
      cases hi
      exact hp
    · simp only [Function.update_of_ne heq] at hi
      exact hw p' i hp' hi

theorem Within.remove (hw : fs.Within Q) (p : P) : (fs.remove p).Within Q := by
  intro p' i hp' hi
  by_cases heq : p' = p
  · subst heq
    simp [System.remove] at hi
  · simp only [System.remove, Function.update_of_ne heq] at hi
    exact hw p' i hp' hi

theorem Within.rename {fs' : System P β} (hw : fs.Within Q) (hpq : Q q → Q p) (h : fs.rename p q = some fs') :
    fs'.Within Q := by
  unfold System.rename at h
  split at h
  · rename_i i hi
    cases h
    intro p' i' hp' hi'
    by_cases heq : p' = q
    · subst heq
      simp only [Function.update_self] at hi'
      cases hi'
      exact hw p i (hpq hp') hi
    · simp only [Function.update_of_ne heq] at hi'
      exact hw.remove p p' i' hp' hi'
  · cases h

variable [DecidablePred Q]

private theorem update_restrict {A B : Type} [DecidableEq A] {R : A → Prop} [DecidablePred R] {f : A → B} {a : A} (b d : B)
    (ha : R a) :
    Function.update (fun x => if R x then f x else d) a b = fun x => if R x then Function.update f a b x else d := by
  funext x
  by_cases hx : x = a
  · subst hx
    simp [ha]
  · simp [hx]

private theorem update_restrict_of_not {A B : Type} [DecidableEq A] {R : A → Prop} [DecidablePred R] {f : A → B} {a : A}
    (b d : B) (ha : ¬R a) :
    (fun x => if R x then Function.update f a b x else d) = fun x => if R x then f x else d := by
  funext x
  by_cases hx : x = a
  · subst hx
    simp [ha]
  · simp [hx]

/-! Operations on the part. -/

theorem create_restrict (hw : fs.Within Q) (hp : Q p) :
    (fs.restrict Q).create p = ((fs.create p).1.restrict Q, (fs.create p).2) := by
  unfold create
  rw [dir_restrict hp]
  cases hdir : fs.dir p with
  | some i =>
    refine Prod.ext (System.ext rfl ?_ rfl) rfl
    exact update_restrict (R := fun i : P × Nat => Q i.1) [] [] (hw p i hp hdir)
  | none =>
    have hmade : (fs.restrict Q).made p = fs.made p := if_pos hp
    rw [hmade]
    refine Prod.ext (System.ext ?_ ?_ ?_) rfl
    · exact update_restrict _ none hp
    · exact update_restrict (R := fun i : P × Nat => Q i.1) [] [] hp
    · exact update_restrict _ 0 hp

theorem write_restrict [Inhabited β] (hi : Q i.1) (pos : Nat) (bytes : List β) :
    (fs.restrict Q).write i pos bytes = (fs.write i pos bytes).restrict Q := by
  unfold write
  rw [content_restrict hi]
  exact System.ext rfl (update_restrict (R := fun i : P × Nat => Q i.1) _ [] hi) rfl

theorem remove_restrict (hp : Q p) : (fs.restrict Q).remove p = (fs.remove p).restrict Q :=
  System.ext (update_restrict _ none hp) rfl rfl

theorem rename_restrict (hp : Q p) (hq : Q q) :
    (fs.restrict Q).rename p q = (fs.rename p q).map (restrict Q) := by
  unfold rename
  rw [dir_restrict hp]
  cases fs.dir p with
  | none => rfl
  | some i =>
    refine congrArg some (System.ext ?_ rfl rfl)
    show Function.update (Function.update (fun x => if Q x then fs.dir x else none) p none) q (some i) = _
    rw [update_restrict none none hp, update_restrict _ none hq]
    rfl

/-! Operations elsewhere. -/

theorem restrict_create_of_not (hp : ¬Q p) (hi : ∀ i, fs.dir p = some i → ¬Q i.1) :
    (fs.create p).1.restrict Q = fs.restrict Q := by
  unfold create
  cases hdir : fs.dir p with
  | some i => exact System.ext rfl (update_restrict_of_not (R := fun i : P × Nat => Q i.1) [] [] (hi i hdir)) rfl
  | none =>
    exact System.ext (update_restrict_of_not _ none hp)
      (update_restrict_of_not (R := fun i : P × Nat => Q i.1) [] [] hp) (update_restrict_of_not _ 0 hp)

theorem restrict_write_of_not [Inhabited β] (hi : ¬Q i.1) (pos : Nat) (bytes : List β) :
    (fs.write i pos bytes).restrict Q = fs.restrict Q :=
  System.ext rfl (update_restrict_of_not (R := fun i : P × Nat => Q i.1) _ [] hi) rfl

theorem restrict_remove_of_not (hp : ¬Q p) : (fs.remove p).restrict Q = fs.restrict Q :=
  System.ext (update_restrict_of_not none none hp) rfl rfl

theorem restrict_rename_of_not {fs' : System P β} (hp : ¬Q p) (hq : ¬Q q) (h : fs.rename p q = some fs') :
    fs'.restrict Q = fs.restrict Q := by
  unfold rename at h
  split at h
  · cases h
    refine System.ext ?_ rfl rfl
    exact (update_restrict_of_not _ none hq).trans (update_restrict_of_not none none hp)
  · cases h

end Operations

end System

end Files
