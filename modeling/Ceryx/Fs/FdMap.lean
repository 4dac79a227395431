import Ceryx.Lib.Simulation
import Ceryx.Lib.Slots
import Ceryx.Fs.PipeEnds

/-!
# Ceryx.Fs.FdMap — the descriptor tables as finite maps

`AllocateFd`, `AllocateFdAt`, `FreeFd`, `GetFd`, `Exit` and `Fork` of
`Process.cpp`, called in any order on any number of processes.

* `fdStep`: the calls over the tables as they are stored, lists that grow, where
  a slot that was never reached, never opened or closed are three things.
* `FdMaps` and `FdSpec`: a map from `[0, 1024)` for each process, and what each
  call may do to the maps and return.
* `fdTables_refine`: every run of the calls is a run of the specification, with
  the same results.
-/

namespace Ceryx.Fs

open Lib Proc

/-! ## The calls -/

/-- A call. A null `RefPtr` to a description is `none`; `grow` says which
`Resize(fd + 1)` succeed. -/
inductive FdOp where
  | allocateFd (p : ProcId) (file : Option DescId) (grow : Nat → Bool)
  | allocateFdAt (p : ProcId) (fd : Nat) (file : Option DescId) (grow : Nat → Bool)
  | freeFd (p : ProcId) (fd : Nat)
  | getFd (p : ProcId) (fd : Nat)
  | exit (p : ProcId)
  | fork (p : ProcId) (alloc : Kernel.ForkAlloc)

/-- The process whose method is called. -/
def FdOp.proc : FdOp → ProcId
  | .allocateFd p _ _ => p
  | .allocateFdAt p _ _ _ => p
  | .freeFd p _ => p
  | .getFd p _ => p
  | .exit p => p
  | .fork p _ => p

/-- What a call returns. -/
inductive FdResult where
  | fd (n : Nat)
  | error (e : Int)
  | file (d : Option DescId)
  | done
  | child (c : ProcId)
  | noChild
deriving DecidableEq, Repr

namespace FileSys

/-- `Process::AllocateFd` of process `p`. -/
def allocateFdOf (s : FileSys) (p : ProcId) (file : Option DescId) (grow : Nat → Bool) :
    FdResult × FileSys :=
  match file with
  | none => (.error (-EBADF), s)
  | some d =>
      match allocateFd (s.tables p) d grow with
      | .ok (fd, table) => (.fd fd, s.setTable p table)
      | .error e => (.error e, s)

/-- `Process::AllocateFdAt` of process `p`. -/
def allocateFdAtOf (s : FileSys) (p : ProcId) (fd : Nat) (file : Option DescId)
    (grow : Nat → Bool) : FdResult × FileSys :=
  match file with
  | none => (.error (-EBADF), s)
  | some d =>
      match s.installAt p fd d grow with
      | .ok (fd, s) => (.fd fd, s)
      | .error e => (.error e, s)

/-- `Process::Fork`, as far as its result tells the child from an error. -/
def forkOf (s : FileSys) (p : ProcId) (alloc : Kernel.ForkAlloc) : FdResult × FileSys :=
  (match alloc with
    | .enough _ => .child s.nextProc
    | _ => .noChild,
    s.fork p alloc)

end FileSys

/-- A call, whatever its process. -/
def FileSys.call (s : FileSys) : FdOp → FdResult × FileSys
  | .allocateFd p file grow => s.allocateFdOf p file grow
  | .allocateFdAt p fd file grow => s.allocateFdAtOf p fd file grow
  | .freeFd p fd => (.done, s.freeFd p fd)
  | .getFd p fd => (.file (getFd (s.tables p) fd), s)
  | .exit p => (.done, s.closeAll p)
  | .fork p alloc => s.forkOf p alloc

/-- A call of a method of a process that exists. -/
def fdStep (s : FileSys) (op : FdOp) : Option (FdResult × FileSys) :=
  if op.proc < s.nextProc ∧ s.gone op.proc = false then some (s.call op) else none

/-! ## The maps -/

/-- The map of one process. -/
abbrev FdMap := Slots DescId kMaxFds

/-- The maps of all processes; no process has a name from `next` on. -/
structure FdMaps where
  map : ProcId → FdMap := fun _ => Slots.empty
  next : ProcId := 1

/-- One process's map is replaced. -/
def FdMaps.set (m : FdMaps) (p : ProcId) (f : FdMap) : FdMaps :=
  { m with map := Function.update m.map p f }

/-- What a call may do. -/
inductive FdSpec (m : FdMaps) : FdOp → FdResult → FdMaps → Prop where
  /-- `AllocateFd` installs at the least free number. -/
  | allocated {p : ProcId} {d : DescId} {grow : Nat → Bool} {fd : Nat}
      (least : (m.map p).LeastFree fd) :
      FdSpec m (.allocateFd p (some d) grow) (.fd fd) (m.set p ((m.map p).insert fd least.lt d))
  | allFull {p : ProcId} {d : DescId} {grow : Nat → Bool} (full : (m.map p).Full) :
      FdSpec m (.allocateFd p (some d) grow) (.error (-EMFILE)) m
  | allocateGrowth {p : ProcId} {d : DescId} {grow : Nat → Bool} {fd : Nat}
      (least : (m.map p).LeastFree fd) (growth : grow fd = false) :
      FdSpec m (.allocateFd p (some d) grow) (.error (-Proc.ENOMEM)) m
  | allocateNull {p : ProcId} {grow : Nat → Bool} :
      FdSpec m (.allocateFd p none grow) (.error (-EBADF)) m
  /-- `AllocateFdAt` replaces one entry. -/
  | installed {p : ProcId} {fd : Nat} {d : DescId} {grow : Nat → Bool} (hfd : fd < kMaxFds) :
      FdSpec m (.allocateFdAt p fd (some d) grow) (.fd fd) (m.set p ((m.map p).insert fd hfd d))
  | outOfRange {p : ProcId} {fd : Nat} {d : DescId} {grow : Nat → Bool} (hfd : kMaxFds ≤ fd) :
      FdSpec m (.allocateFdAt p fd (some d) grow) (.error (-EBADF)) m
  | installGrowth {p : ProcId} {fd : Nat} {d : DescId} {grow : Nat → Bool}
      (hfd : fd < kMaxFds) (growth : grow fd = false) :
      FdSpec m (.allocateFdAt p fd (some d) grow) (.error (-Proc.ENOMEM)) m
  | installNull {p : ProcId} {fd : Nat} {grow : Nat → Bool} :
      FdSpec m (.allocateFdAt p fd none grow) (.error (-EBADF)) m
  | freed {p : ProcId} {fd : Nat} : FdSpec m (.freeFd p fd) .done (m.set p ((m.map p).erase fd))
  | got {p : ProcId} {fd : Nat} : FdSpec m (.getFd p fd) (.file ((m.map p).get fd)) m
  | exited {p : ProcId} : FdSpec m (.exit p) .done (m.set p Slots.empty)
  /-- `Fork` gives a new process an equal map of the same descriptions. -/
  | forked {p c : ProcId} {stack : Nat} (new : m.next ≤ c) :
      FdSpec m (.fork p (.enough stack)) (.child c) { m.set c (m.map p) with next := c + 1 }
  | forkFailed {p : ProcId} {alloc : Kernel.ForkAlloc} {next : ProcId} (old : m.next ≤ next)
      (fails : ∀ stack, alloc ≠ .enough stack) :
      FdSpec m (.fork p alloc) .noChild { m with next := next }

/-- The stored tables show these maps. -/
structure ShowsMaps (s : FileSys) (m : FdMaps) : Prop where
  get : ∀ p fd, getFd (s.tables p) fd = (m.map p).get fd
  next : s.nextProc = m.next
  /-- A process that does not exist yet has no table. -/
  fresh : ∀ p, s.nextProc ≤ p → s.tables p = []

/-! ## One table -/

/-- An empty table has no open slot, -/
theorem getFd_nil (fd : Nat) : getFd [] fd = none := rfl

/-- and no table has one behind its end. -/
theorem getFd_beyond {table : FdTable} {fd : Nat} (h : table.length ≤ fd) :
    getFd table fd = none := by
  unfold getFd
  rw [List.getElem?_eq_none h]
  rfl

/-- A slot is written. -/
theorem getFd_set (table : FdTable) {i : Nat} (hi : i < table.length) (slot : Option DescId)
    (fd : Nat) : getFd (table.set i slot) fd = if fd = i then slot else getFd table fd := by
  unfold getFd
  by_cases h : fd = i
  · subst h
    rw [if_pos rfl, List.getElem?_set_self hi]
    rfl
  · rw [if_neg h, List.getElem?_set_ne (Ne.symm h)]

/-- `Reset` of a slot, beyond the end of the table too. -/
theorem getFd_reset (table : FdTable) (i fd : Nat) :
    getFd (table.set i none) fd = if fd = i then none else getFd table fd := by
  by_cases hi : i < table.length
  · exact getFd_set table hi none fd
  · have hle : table.length ≤ i := Nat.le_of_not_lt hi
    rw [List.set_eq_of_length_le hle]
    split
    · rename_i h
      rw [h]
      exact getFd_beyond hle
    · rfl

/-- The slots that `Resize` adds are empty. -/
theorem getFd_resizeFor (table : FdTable) (i fd : Nat) :
    getFd (resizeFor table i) fd = getFd table fd := by
  unfold getFd resizeFor
  by_cases h : fd < table.length
  · rw [List.getElem?_append_left h]
  · have hle : table.length ≤ fd := Nat.le_of_not_lt h
    rw [List.getElem?_append_right hle, List.getElem?_eq_none hle]
    cases hget : (List.replicate (i + 1 - table.length) (none : Option DescId))[fd - table.length]?
      with
    | none => rfl
    | some slot =>
        have hmem := List.mem_of_getElem? hget
        rw [List.eq_of_mem_replicate hmem]
        rfl

/-- The table is long enough for the slot. -/
theorem lt_length_resizeFor (table : FdTable) (i : Nat) : i < (resizeFor table i).length := by
  unfold resizeFor
  rw [List.length_append, List.length_replicate]
  omega

/-- How the search of `AllocateFd` ends, when it has `n` slots left from `fd` on
and all slots before are in use. -/
inductive Allocated (table : FdTable) (d : DescId) (grow : Nat → Bool) (fd n : Nat) :
    Except Int (Nat × FdTable) → Prop where
  | installed {i : Nat} {table' : FdTable} (lt : i < fd + n) (free : getFd table i = none)
      (taken : ∀ j, j < i → getFd table j ≠ none)
      (get : ∀ j, getFd table' j = if j = i then some d else getFd table j) :
      Allocated table d grow fd n (.ok (i, table'))
  | full (taken : ∀ j, j < fd + n → getFd table j ≠ none) :
      Allocated table d grow fd n (.error (-EMFILE))
  | growth {i : Nat} (lt : i < fd + n) (free : getFd table i = none)
      (taken : ∀ j, j < i → getFd table j ≠ none) (fails : grow i = false) :
      Allocated table d grow fd n (.error (-Proc.ENOMEM))

/-- The search from `fd` on, with everything below taken; the induction is on how many
slots are left to try. -/
theorem allocateFdFrom_spec (table : FdTable) (d : DescId) (grow : Nat → Bool) (n : Nat) {fd : Nat}
    (hfd : fd ≤ table.length) (htaken : ∀ j, j < fd → getFd table j ≠ none) :
    Allocated table d grow fd n (allocateFdFrom table d grow n fd) := by
  induction n generalizing fd with
  | zero => exact Allocated.full htaken
  | succ n ih =>
      unfold allocateFdFrom
      by_cases hend : table.length ≤ fd
      · -- the slot is made by `Resize`, and is the one after the last
        have heq : fd = table.length := Nat.le_antisymm hfd hend
        have hfree : getFd table fd = none := getFd_beyond hend
        rw [if_pos hend]
        cases hgrow : grow fd with
        | false => exact Allocated.growth (by omega) hfree htaken hgrow
        | true =>
            refine Allocated.installed (by omega) hfree htaken fun j => ?_
            have hset : table ++ [some d] = (table ++ [none]).set fd (some d) := by
              rw [heq, List.set_append_right _ _ (Nat.le_refl _), Nat.sub_self]
              rfl
            have hlen : fd < (table ++ [none]).length := by
              rw [List.length_append, heq]
              exact Nat.lt_succ_self _
            have hpad : table ++ [none] = resizeFor table fd := by
              unfold resizeFor
              rw [heq, Nat.add_sub_cancel_left]
              rfl
            rw [hset, getFd_set _ hlen, hpad, getFd_resizeFor]
      · rw [if_neg hend]
        have hlt : fd < table.length := Nat.lt_of_not_le hend
        cases hslot : getFd table fd with
        | none => exact Allocated.installed (by omega) hslot htaken (getFd_set table hlt (some d))
        | some e =>
            -- the slot is in use: the search goes on
            have htaken' : ∀ j, j < fd + 1 → getFd table j ≠ none := by
              intro j hj
              rcases Nat.lt_succ_iff_lt_or_eq.mp hj with hlt' | rfl
              · exact htaken j hlt'
              · rw [hslot]
                exact Option.some_ne_none e
            have hsum : fd + (n + 1) = fd + 1 + n := by omega
            have hnext := ih hlt htaken'
            rw [if_neg (by simp)]
            cases hres : allocateFdFrom table d grow n (fd + 1) with
            | error e =>
                rw [hres] at hnext
                cases hnext with
                | full taken => exact Allocated.full (hsum ▸ taken)
                | growth lt free taken fails =>
                    exact Allocated.growth (hsum ▸ lt) free taken fails
            | ok r =>
                rw [hres] at hnext
                cases hnext with
                | installed lt free taken get =>
                    exact Allocated.installed (hsum ▸ lt) free taken get

/-! ## What the calls leave of the tables -/

/-- What `FreeFd` does to the tables, -/
theorem freeFd_tables (s : FileSys) (p : ProcId) (fd : Nat) :
    (s.freeFd p fd).tables = Function.update s.tables p ((s.tables p).set fd none) := by
  unfold FileSys.freeFd
  rw [settleSlot_eq]
  rfl

/-- what giving up a reference does, which is nothing, -/
theorem settleSlot_tables (s : FileSys) (slot : Option DescId) :
    (s.settleSlot slot).tables = s.tables ∧ (s.settleSlot slot).nextProc = s.nextProc := by
  rw [settleSlot_eq]
  exact ⟨rfl, rfl⟩

/-- Emptying slots of one table. -/
theorem freeFds_frame (p : ProcId) (fds : List Nat) (s : FileSys) :
    (∀ q, q ≠ p → (fds.foldl (fun s fd => s.freeFd p fd) s).tables q = s.tables q) ∧
      (fds.foldl (fun s fd => s.freeFd p fd) s).nextProc = s.nextProc := by
  induction fds generalizing s with
  | nil => exact ⟨fun _ _ => rfl, rfl⟩
  | cons fd fds ih =>
      rcases ih (s.freeFd p fd) with ⟨htables, hnext⟩
      refine ⟨fun q hq => (htables q hq).trans ?_, hnext.trans (freeFd_names s p fd).1⟩
      rw [freeFd_tables, Function.update_of_ne hq]

/-- what the end of a process does, -/
theorem closeAll_tables (s : FileSys) (p : ProcId) :
    (s.closeAll p).tables = Function.update s.tables p [] ∧
      (s.closeAll p).nextProc = s.nextProc := by
  rcases freeFds_frame p (List.range (s.tables p).length) s with ⟨htables, hnext⟩
  refine ⟨?_, hnext⟩
  funext q
  unfold FileSys.closeAll FileSys.setTable
  dsimp only
  by_cases hq : q = p
  · subst hq
    rw [Function.update_self, Function.update_self]
  · rw [Function.update_of_ne hq, Function.update_of_ne hq]
    exact htables q hq

/-- what its beginning does, -/
theorem newProcess_tables (s : FileSys) (table : FdTable) :
    (s.newProcess table).tables = Function.update s.tables s.nextProc table ∧
      (s.newProcess table).nextProc = s.nextProc + 1 := ⟨rfl, rfl⟩

/-- and what its deletion does. -/
theorem deleteProcess_tables (s : FileSys) (p : ProcId) :
    (s.deleteProcess p).tables = Function.update s.tables p [] ∧
      (s.deleteProcess p).nextProc = s.nextProc := closeAll_tables s p

/-! ## The refinement -/

namespace ShowsMaps

variable {s s' : FileSys} {m : FdMaps}

/-- Another table for one process. -/
theorem setTable (h : ShowsMaps s m) {p : ProcId} (hp : p < s.nextProc) {table : FdTable}
    {f : FdMap} (htables : s'.tables = Function.update s.tables p table)
    (hnext : s'.nextProc = s.nextProc) (hget : ∀ fd, getFd table fd = f.get fd) :
    ShowsMaps s' (m.set p f) where
  get q fd := by
    unfold FdMaps.set
    dsimp only
    rw [htables]
    -- the process whose table is replaced, and the others
    by_cases hq : q = p
    · subst hq
      rw [Function.update_self, Function.update_self]
      exact hget fd
    · rw [Function.update_of_ne hq, Function.update_of_ne hq]
      exact h.get q fd
  next := hnext.trans h.next
  fresh q hq := by
    rw [hnext] at hq
    have hne : q ≠ p := Nat.ne_of_gt (Nat.lt_of_lt_of_le hp hq)
    rw [htables, Function.update_of_ne hne]
    exact h.fresh q hq

/-- A name that is used up by a process without descriptors. -/
theorem skip (h : ShowsMaps s m) (htables : s'.tables = s.tables)
    (hnext : s'.nextProc = s.nextProc + 1) : ShowsMaps s' { m with next := m.next + 1 } where
  get q fd := by
    rw [htables]
    exact h.get q fd
  next := by rw [hnext, h.next]
  fresh q hq := by
    rw [hnext] at hq
    rw [htables]
    exact h.fresh q (Nat.le_of_succ_le hq)

/-- The first free slot is the least descriptor that is not in the map. -/
theorem leastFree (h : ShowsMaps s m) {p : ProcId} {i : Nat} (hlt : i < kMaxFds)
    (hfree : getFd (s.tables p) i = none)
    (htaken : ∀ j, j < i → getFd (s.tables p) j ≠ none) : (m.map p).LeastFree i := by
  constructor
  · exact hlt
  · rw [← h.get]
    exact hfree
  · intro j hj
    rw [← h.get]
    exact htaken j hj

/-- `AllocateFd`, on the map. -/
theorem allocateFd_step (h : ShowsMaps s m) {p : ProcId} (hp : p < s.nextProc)
    (file : Option DescId) (grow : Nat → Bool) :
    ∃ m', FdSpec m (.allocateFd p file grow) (s.allocateFdOf p file grow).1 m' ∧
      ShowsMaps (s.allocateFdOf p file grow).2 m' := by
  cases file with
  | none => exact ⟨m, FdSpec.allocateNull, h⟩
  | some d =>
      have hspec := allocateFdFrom_spec (s.tables p) d grow kMaxFds (Nat.zero_le _)
        fun j hj => absurd hj (Nat.not_lt_zero j)
      unfold FileSys.allocateFdOf allocateFd
      dsimp only
      cases hres : allocateFdFrom (s.tables p) d grow kMaxFds 0 with
      -- the search has found a slot, which is the least free one
      | ok r =>
          rw [hres] at hspec
          cases hspec with
          | installed lt free taken get =>
              have hleast := h.leastFree (Nat.zero_add kMaxFds ▸ lt) free taken
              refine ⟨_, FdSpec.allocated hleast, h.setTable hp rfl rfl fun j => ?_⟩
              rw [get, Slots.get_insert, h.get]
      | error e =>
          rw [hres] at hspec
          cases hspec with
          -- all are taken
          | full taken =>
              refine ⟨m, FdSpec.allFull fun j hj => ?_, h⟩
              rw [← h.get]
              exact taken j (by omega)
          -- the table could not grow
          | growth lt free taken fails =>
              have hleast := h.leastFree (Nat.zero_add kMaxFds ▸ lt) free taken
              exact ⟨m, FdSpec.allocateGrowth hleast fails, h⟩

/-- `AllocateFdAt`: the old file of the slot is replaced. -/
theorem allocateFdAt_step (h : ShowsMaps s m) {p : ProcId} (hp : p < s.nextProc) (fd : Nat)
    (file : Option DescId) (grow : Nat → Bool) :
    ∃ m', FdSpec m (.allocateFdAt p fd file grow) (s.allocateFdAtOf p fd file grow).1 m' ∧
      ShowsMaps (s.allocateFdAtOf p fd file grow).2 m' := by
  cases file with
  | none => exact ⟨m, FdSpec.installNull, h⟩
  | some d =>
      unfold FileSys.allocateFdAtOf FileSys.installAt allocateFdAt
      dsimp only
      -- out of range, no memory to grow, or installed
      by_cases hfd : kMaxFds ≤ fd
      · rw [if_pos hfd]
        exact ⟨m, FdSpec.outOfRange hfd, h⟩
      · have hlt : fd < kMaxFds := Nat.lt_of_not_le hfd
        rw [if_neg hfd]
        by_cases hgrow : (s.tables p).length ≤ fd ∧ grow fd = false
        · rw [if_pos hgrow]
          exact ⟨m, FdSpec.installGrowth hlt hgrow.2, h⟩
        · rw [if_neg hgrow]
          rcases settleSlot_tables (s.setTable p ((resizeFor (s.tables p) fd).set fd (some d)))
            (getFd (s.tables p) fd) with ⟨htables, hnext⟩
          refine ⟨_, FdSpec.installed hlt, h.setTable hp htables hnext fun j => ?_⟩
          rw [getFd_set _ (lt_length_resizeFor _ _), getFd_resizeFor, Slots.get_insert, h.get]

/-- `Fork`: the child's map is the parent's, or there is no child. -/
theorem fork_step (h : ShowsMaps s m) (p : ProcId)
    (alloc : Kernel.ForkAlloc) :
    ∃ m', FdSpec m (.fork p alloc) (s.forkOf p alloc).1 m' ∧ ShowsMaps (s.forkOf p alloc).2 m' := by
  -- a child that is deleted again leaves its name behind and an empty table
  have hstillborn : ∀ table : FdTable,
      ShowsMaps ((s.newProcess table).deleteProcess s.nextProc) { m with next := m.next + 1 } := by
    intro table
    rcases deleteProcess_tables (s.newProcess table) s.nextProc with ⟨htables, hnext⟩
    apply h.skip
    · rw [htables, (newProcess_tables s table).1, Function.update_idem]
      exact Function.update_eq_self_iff.mpr (h.fresh _ (Nat.le_refl _)).symm
    · exact hnext
  cases alloc with
  | noAddressSpace => exact ⟨m, FdSpec.forkFailed (Nat.le_refl _) (by intro stack; nofun), h⟩
  | noProcess => exact ⟨m, FdSpec.forkFailed (Nat.le_refl _) (by intro stack; nofun), h⟩
  | noFdTable =>
      exact ⟨_, FdSpec.forkFailed (Nat.le_succ _) (by intro stack; nofun), hstillborn []⟩
  | noThread =>
      exact ⟨_, FdSpec.forkFailed (Nat.le_succ _) (by intro stack; nofun), hstillborn (s.tables p)⟩
  | enough stack =>
      refine ⟨_, FdSpec.forked (Nat.le_of_eq h.next.symm), ?_⟩
      constructor
      · intro q fd
        change getFd (Function.update s.tables s.nextProc (s.tables p) q) fd =
          (Function.update m.map s.nextProc (m.map p) q).get fd
        by_cases hq : q = s.nextProc
        · subst hq
          rw [Function.update_self, Function.update_self]
          exact h.get p fd
        · rw [Function.update_of_ne hq, Function.update_of_ne hq]
          exact h.get q fd
      · rfl
      · intro q hq
        have hne : q ≠ s.nextProc := Nat.ne_of_gt hq
        change Function.update s.tables s.nextProc (s.tables p) q = []
        rw [Function.update_of_ne hne]
        exact h.fresh q (Nat.le_of_succ_le hq)

/-- Each call is one of the abstract map's, -/
theorem call_step (h : ShowsMaps s m) (op : FdOp) (hproc : op.proc < s.nextProc) :
    ∃ m', FdSpec m op (s.call op).1 m' ∧ ShowsMaps (s.call op).2 m' := by
  cases op with
  | allocateFd p file grow =>
      have hp : p < s.nextProc := hproc
      exact h.allocateFd_step hp file grow
  | allocateFdAt p fd file grow =>
      have hp : p < s.nextProc := hproc
      exact h.allocateFdAt_step hp fd file grow
  | freeFd p fd =>
      have hp : p < s.nextProc := hproc
      refine ⟨_, FdSpec.freed, h.setTable hp (freeFd_tables s p fd) (freeFd_names s p fd).1 ?_⟩
      intro i
      -- a slot that is reset is a descriptor that is gone
      rw [getFd_reset, Slots.get_erase, h.get]
  | getFd p fd =>
      refine ⟨m, ?_, h⟩
      show FdSpec m (.getFd p fd) (.file (getFd (s.tables p) fd)) m
      rw [h.get]
      exact FdSpec.got
  | exit p =>
      have hp : p < s.nextProc := hproc
      rcases closeAll_tables s p with ⟨htables, hnext⟩
      exact ⟨_, FdSpec.exited, h.setTable hp htables hnext getFd_nil⟩
  | fork p alloc => exact h.fork_step p alloc

/-- and so each step. -/
theorem step (h : ShowsMaps s m) {op : FdOp} {r : FdResult} (hstep : fdStep s op = some (r, s')) :
    ∃ m', FdSpec m op r m' ∧ ShowsMaps s' m' := by
  unfold fdStep at hstep
  split at hstep
  · rename_i hproc
    have hcall := h.call_step op hproc.1
    rw [Option.some.inj hstep] at hcall
    exact hcall
  · cases hstep

end ShowsMaps

/-- At boot there is one process, with no file. -/
theorem boot_showsMaps : ShowsMaps FileSys.boot {} where
  get _ _ := rfl
  next := rfl
  fresh _ _ := rfl

/-- Whatever calls are made on whatever processes from the boot on, and
whatever allocations fail: the calls return what they return on the maps, and
at the end the tables show the maps. -/
theorem fdTables_refine {ops : List FdOp} {results : List FdResult} {s : FileSys}
    (hrun : trace fdStep FileSys.boot ops = some (results, s)) :
    ∃ m, SpecRun FdSpec {} ops results m ∧ ShowsMaps s m :=
  specRun_of_trace (fun _ _ _ _ _ h hstep => h.step hstep) boot_showsMaps hrun

/-- Descriptor 0 is freed and used again, after a fork has copied the table. -/
def reuseFd : List FdOp :=
  [.allocateFd 0 (some 7) fun _ => true, .allocateFd 0 (some 8) fun _ => true,
    .fork 0 (.enough 0), .freeFd 0 0, .allocateFd 0 (some 9) fun _ => false, .getFd 0 0,
    .getFd 1 0, .exit 1, .getFd 1 0]

/-- The results of a run, taken from the maps. -/
theorem reused_fd_refines : ∃ m, SpecRun FdSpec {} reuseFd
    [.fd 0, .fd 1, .child 1, .done, .fd 0, .file (some 9), .file (some 7), .done, .file none] m := by
  have hrun : ∃ results s, trace fdStep FileSys.boot reuseFd = some (results, s) ∧
      results = [.fd 0, .fd 1, .child 1, .done, .fd 0, .file (some 9), .file (some 7), .done,
        .file none] := ⟨_, _, rfl, rfl⟩
  rcases hrun with ⟨results, s, hrun, rfl⟩
  rcases fdTables_refine hrun with ⟨m, hspec, -⟩
  exact ⟨m, hspec⟩

end Ceryx.Fs
