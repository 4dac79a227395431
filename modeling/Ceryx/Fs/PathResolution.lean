import Ceryx.Fs.Vfs

/-!
# Ceryx.Fs.PathResolution — resolving a path in two parts

`Vfs::PathToVnode` without a bound on its turns, and paths that are put together.

* `pathTurn`: a turn of the loop. `PathReturns`: the turns from a cursor on end
  with this result.
* `pathReturns_pathToVnode`: the loop ends for every path, after at most as many
  turns as the path has bytes.
* `pathToVnode_append`: `p/q` from a vnode is `q` from where `p` leads to.
* `pathToVnode_composes`: all this, in every tree.
-/

namespace Ceryx.Fs.Vfs

open Lib RamFs

namespace Vnodes

variable {V : Type}

/-! ## The loop, turn by turn -/

/-- `offset` and `current`. -/
structure PathCursor where
  offset : Nat
  current : Nat

/-- The test of the loop of `PathToVnode` and its body: what is returned, or the
cursor of the next turn. -/
def pathTurn (t : Vnodes V) (path : StringView) (c : PathCursor) : Except Int Nat ⊕ PathCursor :=
  if c.offset < path.length then
    let (component, offset) := nextComponent path c.offset
    if component = [] ∨ component = dot then .inr ⟨offset, c.current⟩
    else if t.isDirectory c.current = false then .inl (.error (-ENOTDIR))
    else
      match t.lookup c.current component with
      | .error e => .inl (.error e)
      | .ok v => .inr ⟨offset, v⟩
  else .inl (.ok c.current)

/-- The loop returns `r` from the cursor on. -/
inductive PathReturns (t : Vnodes V) (path : StringView) : PathCursor → Except Int Nat → Prop where
  | exit {c : PathCursor} {r : Except Int Nat} (hturn : t.pathTurn path c = .inl r) :
      PathReturns t path c r
  | turn {c c' : PathCursor} {r : Except Int Nat} (hturn : t.pathTurn path c = .inr c')
      (hrest : PathReturns t path c' r) : PathReturns t path c r

/-- The cursor behind a leading slash. -/
def startCursor (root : Nat) (path : StringView) : PathCursor :=
  ⟨if path.head? = some slash then 1 else 0, root⟩

/-- `PathToVnode` returns `r`. -/
def Resolves (t : Vnodes V) (root : Nat) (path : StringView) (r : Except Int Nat) : Prop :=
  if path = [] then r = .ok root else PathReturns t path (startCursor root path) r

/-- A turn that goes on has moved the offset. -/
theorem pathTurn_offset {t : Vnodes V} {path : StringView} {c c' : PathCursor}
    (h : t.pathTurn path c = .inr c') : c.offset < path.length ∧ c.offset < c'.offset := by
  unfold pathTurn at h
  by_cases hlt : c.offset < path.length
  · refine ⟨hlt, ?_⟩
    rw [if_pos hlt] at h
    -- whatever the component is, the cursor goes behind it
    have hnext := (nextComponent_spec hlt).2.1
    dsimp only at h
    split at h
    · cases h
      exact hnext
    · split at h
      · cases h
      · split at h
        · cases h
        · cases h
          exact hnext
  · rw [if_neg hlt] at h
    cases h

/-- The loop returns at most one result. -/
theorem PathReturns.unique {t : Vnodes V} {path : StringView} {c : PathCursor}
    {r r' : Except Int Nat} (h : PathReturns t path c r) (h' : PathReturns t path c r') : r = r' := by
  induction h with
  | exit hturn =>
      cases h' with
      | exit hturn' => exact Sum.inl.inj (hturn.symm.trans hturn')
      | turn hturn' _ => cases hturn.symm.trans hturn'
  | turn hturn _ ih =>
      cases h' with
      | exit hturn' => cases hturn.symm.trans hturn'
      | turn hturn' hrest' =>
          obtain rfl := Sum.inr.inj (hturn.symm.trans hturn')
          exact ih hrest'

/-- The bounded loop takes the same turns. -/
theorem pathLoop_succ (t : Vnodes V) (path : StringView) (n : Nat) (c : PathCursor) :
    t.pathLoop path (n + 1) c.offset c.current =
      match t.pathTurn path c with
      | .inl r => r
      | .inr c' => t.pathLoop path n c'.offset c'.current := by
  conv_lhs => unfold pathLoop
  unfold pathTurn
  by_cases hlt : c.offset < path.length
  · rw [if_pos hlt, if_pos hlt]
    dsimp only
    -- an empty component or a dot, something that is no directory, or a lookup
    by_cases hskip : (nextComponent path c.offset).1 = [] ∨ (nextComponent path c.offset).1 = dot
    · rw [if_pos hskip, if_pos hskip]
    · rw [if_neg hskip, if_neg hskip]
      by_cases hdir : t.isDirectory c.current = false
      · rw [if_pos hdir, if_pos hdir]
      · rw [if_neg hdir, if_neg hdir]
        cases t.lookup c.current (nextComponent path c.offset).1 with
        | error e => rfl
        | ok v => rfl
  · rw [if_neg hlt, if_neg hlt]

/-- With as many turns as bytes are left, the loop has returned. -/
theorem pathReturns_pathLoop (t : Vnodes V) (path : StringView) (n : Nat) (c : PathCursor)
    (hfuel : path.length - c.offset ≤ n) :
    PathReturns t path c (t.pathLoop path n c.offset c.current) := by
  induction n generalizing c with
  | zero =>
      apply PathReturns.exit
      unfold pathTurn
      rw [if_neg (by omega)]
      rfl
  | succ n ih =>
      rw [pathLoop_succ]
      cases hturn : t.pathTurn path c with
      | inl r => exact PathReturns.exit hturn
      | inr c' =>
          obtain ⟨hlt, hmoved⟩ := pathTurn_offset hturn
          exact PathReturns.turn hturn (ih c' (by omega))

/-- `PathToVnode` ends, with the result of the bounded loop and no other. -/
theorem resolves_iff (t : Vnodes V) (root : Nat) (path : StringView) (r : Except Int Nat) :
    t.Resolves root path r ↔ r = t.pathToVnode root path := by
  unfold Resolves pathToVnode
  by_cases hempty : path = []
  · rw [if_pos hempty, if_pos hempty]
  · rw [if_neg hempty, if_neg hempty]
    have hreturns := pathReturns_pathLoop t path path.length (startCursor root path) (Nat.sub_le _ _)
    constructor
    · intro h
      exact h.unique hreturns
    · intro h
      rw [h]
      exact hreturns

/-! ## Two paths -/

/-- `p/q` leads from `v` to where `q` leads from the end of `p`. -/
theorem pathToVnode_append (t : Vnodes V) (v : Nat) (p q : StringView) :
    t.pathToVnode v (p ++ slash :: q) = (t.pathToVnode v p).bind fun w => t.pathToVnode w q := by
  rw [pathToVnode_eq, components_append, walk_append, ← pathToVnode_eq]
  congr 1
  funext w
  exact (pathToVnode_eq t w q).symm

theorem pathToVnode_congr (t : Vnodes V) (v : Nat) {p p' : StringView}
    (h : components p = components p') : t.pathToVnode v p = t.pathToVnode v p' := by
  rw [pathToVnode_eq, pathToVnode_eq, h]

/-- In every tree the loop ends with one result, the result of `p/q` is that of
`q` behind `p`, and it depends on the components only. -/
theorem pathToVnode_composes (t : Vnodes V) :
    (∀ v path, ∃ r, ∀ r', t.Resolves v path r' ↔ r' = r) ∧
    (∀ v path r, t.Resolves v path r ↔ r = t.pathToVnode v path) ∧
    (∀ v p q, t.pathToVnode v (p ++ slash :: q) =
      match t.pathToVnode v p with
      | .ok w => t.pathToVnode w q
      | .error e => .error e) ∧
    ∀ v p p', components p = components p' → t.pathToVnode v p = t.pathToVnode v p' := by
  refine ⟨fun v path => ⟨_, resolves_iff t v path⟩, resolves_iff t, ?_, ?_⟩
  · intro v p q
    rw [pathToVnode_append]
    cases t.pathToVnode v p with
    | error e => rfl
    | ok w => rfl
  · intro v p p' h
    exact pathToVnode_congr t v h

end Vnodes

end Ceryx.Fs.Vfs
