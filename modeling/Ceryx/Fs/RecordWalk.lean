import Ceryx.Fs.Getdents
import Ceryx.Fs.OpenCreat

/-!
# Ceryx.Fs.RecordWalk — the loop over the records that were written

`sys_getdents64` goes over the records again by their `d_reclen`, a field of 16
bits, while `Iterate` computes the lengths in 64 bits and names are as long as
`sys_open` takes them.

* `WalkExact`: the loop ends after one step for each record that was written, and
  leaves the cookie of the last one.
* `walkExact_iff_short`: for all buffers up to a size this holds if and only if each
  name in them has at most 65503 bytes.
* `long_name_never_ends`: a name of 65504 bytes, whose record has length 0 modulo
  2^16.
-/

namespace Ceryx.Fs.Vfs

open Lib RamFs

variable {V : Type}

/-! ## The property -/

/-- The cookie of the last of `n` records, the first of which has index `i`. -/
def lastCookie (i : Nat) : Nat → Nat
  | 0 => i
  | n + 1 => (i + n + 1) % 2 ^ 64

/-- The call returns; the loop takes as many steps as records were written, no more
and no less, and the cookie is that of the last. -/
def WalkExact (addr : Nat → BitVec 64) (s : Listing V) (bufLen : Nat) (buf : Nat → UInt8) : Prop :=
  ∃ n buf', iterate s.d.tree addr s.d.dir buf bufLen s.offset = .ok (n, buf') ∧
    walkRecords buf' n ((s.next bufLen).length + 1) 0 s.offset =
      some (lastCookie s.offset (s.next bufLen).length) ∧
    walkRecords buf' n (s.next bufLen).length 0 s.offset = none ∧
    sysGetdents64 addr s bufLen buf =
      some (Int.ofNat n, buf', { s with offset := lastCookie s.offset (s.next bufLen).length })

/-- The name is short enough for `d_reclen`. -/
def ShortName (t : Vnodes V) (c : Nat) : Prop := (t.node c).name.length ≤ 65503

theorem shortName_iff {t : Vnodes V} {c : Nat} : ShortName t c ↔ recSize t c < 2 ^ 16 := by
  unfold ShortName recSize headerSize
  omega

/-! ## Short names -/

section
variable {t : Vnodes V} {addr : Nat → BitVec 64}

/-- A step of the loop at a record that was written. -/
theorem walkRecords_step {buf : Nat → UInt8} {stop n p i c offset : Nat} (h : RawAt t addr buf p i c)
    (hp : p < stop) : walkRecords buf stop (n + 1) p offset =
      walkRecords buf stop n (p + recSize t c % 2 ^ 16) ((i + 1) % 2 ^ 64) := by
  have hreclen : bufField buf (p + 16) 2 = recSize t c % 2 ^ 16 := by
    rw [bufField, h.reclen, ofLE_toLE]
    rfl
  have hoff : bufField buf (p + 8) 8 = (i + 1) % 2 ^ 64 := by
    rw [bufField, h.off, ofLE_toLE]
    rfl
  rw [walkRecords, if_pos hp, hreclen, hoff]

/-- Over short names, the loop goes from record to record. -/
theorem walkRecords_short {buf : Nat → UInt8} {stop p i offset : Nat} {cs : List Nat} (n : Nat)
    (h : Records t addr buf p i cs) (hshort : ∀ c ∈ cs, ShortName t c)
    (hstop : p + recordsSize t cs ≤ stop) :
    walkRecords buf stop (cs.length + n) p offset =
      walkRecords buf stop n (p + recordsSize t cs)
        (if cs.length = 0 then offset else (i + cs.length) % 2 ^ 64) := by
  induction cs generalizing p i offset with
  | nil => rw [List.length_nil, Nat.zero_add, recordsSize_nil, Nat.add_zero, if_pos rfl]
  -- one record, whose length fits its field, and then the others
  | cons c cs ih =>
      have hsize := recSize_ge t c
      rw [recordsSize_cons] at hstop ⊢
      have hfit := shortName_iff.mp (hshort c List.mem_cons_self)
      rw [List.length_cons, Nat.succ_add, walkRecords_step h.1 (by omega), Nat.mod_eq_of_lt hfit,
        ih h.2 (fun c' hc' => hshort c' (List.mem_cons_of_mem _ hc')) (by omega), Nat.add_assoc,
        if_neg (Nat.succ_ne_zero _)]
      congr 1
      split
      · rename_i hnil
        rw [hnil]
      · rw [Nat.add_assoc, Nat.add_comm 1]

theorem lastCookie_eq (i n : Nat) :
    lastCookie i n = if n = 0 then i else (i + n) % 2 ^ 64 := by
  cases n with
  | zero => rfl
  | succ n =>
      rw [if_neg (Nat.succ_ne_zero n)]
      rfl

/-! ## The first long name -/

theorem recordsSize_append (t : Vnodes V) (cs cs' : List Nat) :
    recordsSize t (cs ++ cs') = recordsSize t cs + recordsSize t cs' := by
  induction cs with
  | nil => rw [List.nil_append, recordsSize_nil, Nat.zero_add]
  | cons c cs ih => rw [List.cons_append, recordsSize_cons, recordsSize_cons, ih, Nat.add_assoc]

theorem Records.split {buf : Nat → UInt8} {p i : Nat} {cs cs' : List Nat}
    (h : Records t addr buf p i (cs ++ cs')) :
    Records t addr buf p i cs ∧
      Records t addr buf (p + recordsSize t cs) (i + cs.length) cs' := by
  induction cs generalizing p i with
  | nil => exact ⟨trivial, h⟩
  | cons c cs ih =>
      obtain ⟨hfront, hback⟩ := ih h.2
      rw [Nat.add_assoc, Nat.add_assoc, Nat.add_comm 1] at hback
      exact ⟨⟨h.1, hfront⟩, hback⟩

/-- A full buffer takes no record. -/
theorem fitting_full (t : Vnodes V) (bufLen : Nat) (cs : List Nat) :
    fitting t bufLen bufLen cs = [] := by
  cases cs with
  | nil => rfl
  | cons c cs =>
      have hsize := recSize_ge t c
      rw [fitting, if_pos (by omega)]

/-- A buffer that ends behind a record is filled up to it. -/
theorem fitting_cut {bufLen written c : Nat} {cs front back : List Nat}
    (h : fitting t bufLen written cs = front ++ c :: back) :
    fitting t (written + recordsSize t (front ++ [c])) written cs = front ++ [c] ∧
      written + recordsSize t (front ++ [c]) ≤ bufLen := by
  induction cs generalizing written front with
  -- the buffer ends behind the record
  | nil => exact absurd h.symm (List.append_ne_nil_of_right_ne_nil _ (List.cons_ne_nil _ _))
  | cons d cs ih =>
      unfold fitting at h ⊢
      split at h
      · exact absurd h.symm (List.append_ne_nil_of_right_ne_nil _ (List.cons_ne_nil _ _))
      · rename_i hroom
        cases front with
        | nil =>
            obtain ⟨rfl, -⟩ := List.cons.inj h
            rw [List.nil_append, recordsSize_cons, recordsSize_nil, Nat.add_zero,
              if_neg (Nat.lt_irrefl _), fitting_full]
            exact ⟨rfl, Nat.le_of_not_lt hroom⟩
        -- it ends further on
        | cons e front =>
            obtain ⟨rfl, hrest⟩ := List.cons.inj h
            obtain ⟨hcut, hle⟩ := ih hrest
            rw [List.cons_append, recordsSize_cons, ← Nat.add_assoc, if_neg (by omega), hcut]
            exact ⟨rfl, hle⟩

/-- At a long name the loop does not reach the end with the next step. -/
theorem walkRecords_long {buf : Nat → UInt8} {p i c offset : Nat} {front : List Nat}
    (h : Records t addr buf p i (front ++ [c])) (hshort : ∀ f ∈ front, ShortName t f)
    (hlong : ¬ ShortName t c) :
    walkRecords buf (p + recordsSize t (front ++ [c])) (front.length + 2) p offset = none := by
  obtain ⟨hfront, hc⟩ := h.split
  have hsize : 2 ^ 16 ≤ recSize t c := Nat.le_of_not_lt fun hlt => hlong (shortName_iff.mpr hlt)
  have hcut : recSize t c % 2 ^ 16 < 2 ^ 16 := Nat.mod_lt _ (by decide)
  rw [recordsSize_append, recordsSize_cons, recordsSize_nil, Nat.add_zero,
    walkRecords_short 2 hfront hshort (by omega), walkRecords_step hc.1 (by omega), walkRecords,
    if_pos (by omega)]
  rfl

end

/-! ## One call -/

theorem walkExact_of_short {s : Listing V} {bufLen : Nat} (addr : Nat → BitVec 64)
    (buf : Nat → UInt8) (h : ∀ c ∈ s.next bufLen, ShortName s.d.tree c) :
    WalkExact addr s bufLen buf := by
  obtain ⟨buf', hiterate, -, hrecords⟩ := iterate_next addr s bufLen buf
  have hwalk : ∀ n, walkRecords buf' (recordsSize s.d.tree (s.next bufLen))
      ((s.next bufLen).length + n) 0 s.offset =
        walkRecords buf' (recordsSize s.d.tree (s.next bufLen)) n
          (recordsSize s.d.tree (s.next bufLen)) (lastCookie s.offset (s.next bufLen).length) := by
    intro n
    have hshort := @walkRecords_short V s.d.tree addr buf' (recordsSize s.d.tree (s.next bufLen)) 0
      s.offset s.offset (s.next bufLen) n hrecords h (by omega)
    rw [Nat.zero_add, ← lastCookie_eq] at hshort
    exact hshort
  have hend : ∀ n, walkRecords buf' (recordsSize s.d.tree (s.next bufLen))
      ((s.next bufLen).length + (n + 1)) 0 s.offset =
        some (lastCookie s.offset (s.next bufLen).length) := by
    intro n
    rw [hwalk, walkRecords, if_neg (Nat.lt_irrefl _)]
  have hlength := length_le_recordsSize s.d.tree (s.next bufLen)
  refine ⟨_, buf', hiterate, hend 0, hwalk 0, ?_⟩
  rw [sysGetdents64, if_neg (by rw [s.d.isDir]; decide), hiterate]
  dsimp only
  split
  · have hfuel : recordsSize s.d.tree (s.next bufLen) + 1 = (s.next bufLen).length +
        (recordsSize s.d.tree (s.next bufLen) - (s.next bufLen).length + 1) := by omega
    rw [hfuel, hend]
    rfl
  · -- nothing was written
    have hnone : (s.next bufLen).length = 0 := by omega
    rw [hnone]
    rfl

/-- A larger buffer takes the same records, and maybe more. -/
theorem fitting_mono (t : Vnodes V) {bufLen limit : Nat} (h : bufLen ≤ limit) (written : Nat)
    (cs : List Nat) : fitting t bufLen written cs <+: fitting t limit written cs := by
  induction cs generalizing written with
  | nil => exact List.prefix_refl _
  | cons c cs ih =>
      unfold fitting
      split
      · exact List.nil_prefix
      · rw [if_neg (by omega)]
        exact List.cons_prefix_cons.mpr ⟨rfl, ih _⟩

/-- The first element that fails. -/
theorem exists_first_failure {α : Type} {p : α → Prop} {l : List α} (h : ¬ ∀ a ∈ l, p a) :
    ∃ front a back, l = front ++ a :: back ∧ (∀ b ∈ front, p b) ∧ ¬ p a := by
  induction l with
  | nil => exact absurd nofun h
  | cons a l ih =>
      by_cases ha : p a
      · have hrest : ¬ ∀ b ∈ l, p b := by
          intro hall
          exact h (List.forall_mem_cons.mpr ⟨ha, hall⟩)
        obtain ⟨front, b, back, heq, hfront, hb⟩ := ih hrest
        exact ⟨a :: front, b, back, by rw [heq]; rfl, List.forall_mem_cons.mpr ⟨ha, hfront⟩, hb⟩
      · exact ⟨[], a, l, rfl, nofun, ha⟩

/-- A buffer that ends behind the first long record is not gone over to its end. -/
theorem long_not_walkExact {s : Listing V} {limit c : Nat} {front back : List Nat}
    (hsplit : s.next limit = front ++ c :: back) (hfront : ∀ f ∈ front, ShortName s.d.tree f)
    (hc : ¬ ShortName s.d.tree c) (addr : Nat → BitVec 64) (buf : Nat → UInt8) :
    recordsSize s.d.tree (front ++ [c]) ≤ limit ∧
      ¬ WalkExact addr s (recordsSize s.d.tree (front ++ [c])) buf := by
  obtain ⟨hcut, hle⟩ := fitting_cut hsplit
  rw [Nat.zero_add] at hcut hle
  refine ⟨hle, ?_⟩
  rintro ⟨n, buf', hiterate, hwalk, -⟩
  obtain ⟨buf'', hiterate', -, hrecords⟩ := iterate_next addr s
    (recordsSize s.d.tree (front ++ [c])) buf
  rw [hiterate'] at hiterate
  cases hiterate
  -- with this buffer the long record is the last
  have hnext : s.next (recordsSize s.d.tree (front ++ [c])) = front ++ [c] := hcut
  rw [hnext] at hrecords hwalk
  -- and a walk does not get over it
  have hnone := @walkRecords_long _ _ _ _ _ _ _ s.offset _ hrecords hfront hc
  rw [List.length_append, List.length_singleton] at hwalk
  rw [Nat.zero_add] at hnone
  rw [hnone] at hwalk
  cases hwalk

/-- For all buffers up to a size, the loop is exact if and only if the names that
they take are short. -/
theorem walkExact_iff_short (s : Listing V) (limit : Nat) :
    (∀ bufLen, bufLen ≤ limit → ∀ addr buf, WalkExact addr s bufLen buf) ↔
      ∀ c ∈ s.next limit, ShortName s.d.tree c := by
  constructor
  · intro h
    by_contra hlong
    obtain ⟨front, c, back, hsplit, hfront, hc⟩ := exists_first_failure hlong
    obtain ⟨hle, hnot⟩ := long_not_walkExact hsplit hfront hc (fun _ => 0) (fun _ => 0)
    exact hnot (h _ hle _ _)
  · intro h bufLen hle addr buf
    apply walkExact_of_short
    intro c hc
    exact h c ((fitting_mono s.d.tree hle 0 _).subset hc)

/-! ## A long name -/

section
open Vnodes RamFsTree

/-- `sys_open` with `O_CREAT` makes a file of any name without a slash. -/
theorem open_creates (vm : VmObject V) (t : RamFsTree V) {root : Nat} {name : StringView}
    (hslash : slash ∉ name) (hname : ¬ (name = [] ∨ name = dot))
    (hdir : t.isDirectory root = true) (hfree : t.child root name = none) :
    sysOpen vm t.toVnodes (some ⟨root, some root⟩) name O_CREAT ⟨true, true⟩ [] 0
        (fun _ => true) =
      (.ok { fd := 0, vnode := t.next, flags := O_CREAT, offset := 0 },
        withChild vm t.toVnodes .regular root name) := by
  have hpath : t.pathToVnode root name = .error (-ENOENT) := by
    rw [pathToVnode_eq, components_single hslash, if_neg hname, walk_cons, lookup,
      if_neg (by rw [hdir]; decide), hfree]
    rfl
  -- without a slash the file goes into the root directory
  have hnone : rFind name slash = none := by
    rcases hfind : rFind name slash with _ | k
    · rfl
    · exfalso
      obtain ⟨-, -, hsplit⟩ := rFind_some hfind
      apply hslash
      rw [hsplit]
      exact List.mem_append_right _ List.mem_cons_self
  have hparent : t.parentAndName ⟨root, some root⟩ name = .ok (some root, name) := by
    unfold parentAndName
    rw [hnone]
  have htarget : targetVnode vm t.toVnodes ⟨root, some root⟩ name O_CREAT ⟨true, true⟩ =
      (.ok t.next, withChild vm t.toVnodes .regular root name) := by
    unfold targetVnode
    dsimp only
    rw [hpath]
    dsimp only
    rw [if_pos (by decide), hparent]
    exact create_free vm t hdir hfree
  unfold sysOpen
  dsimp only
  rw [htarget]
  rfl

end

/-- A file whose record has length 0 for `d_reclen`. -/
def longName : StringView := List.replicate 65504 97

theorem longName_length : longName.length = 65504 := List.length_replicate

theorem recSize_longest {t : Vnodes V} {c : Nat} (h : (t.node c).name.length = 65504) :
    recSize t c = 65536 := by
  unfold recSize headerSize
  omega

/-- The root with a file of that name, which `sys_open` makes there. -/
def longTree : Vnodes (List VmPage) :=
  Vnodes.withChild (pageList .base) (RamFsTree.emptyRoot (List VmPage)).toVnodes .regular 0 longName

def longListing : Listing (List VmPage) where
  d := {
    tree := longTree
    dir := 0
    isDir := rfl
    dir_lt := Nat.zero_lt_succ _
    child_lt := by
      intro c hc
      have hone : c ∈ [1] := hc
      rw [List.mem_singleton.mp hone]
      exact Nat.lt_succ_self _ }
  offset := 0

theorem longListing_name : (longListing.d.tree.node 1).name = longName := rfl

/-- `sys_open` makes a file with a name of 65504 bytes, and `sys_getdents64` does not
get over its record. -/
theorem long_name_never_ends :
    Vnodes.sysOpen (pageList .base) (RamFsTree.emptyRoot (List VmPage)).toVnodes (some ⟨0, some 0⟩)
        longName O_CREAT ⟨true, true⟩ [] 0 (fun _ => true) =
      (.ok { fd := 0, vnode := 1, flags := O_CREAT, offset := 0 }, longTree) ∧
    ¬ ∀ bufLen addr buf, WalkExact addr longListing bufLen buf := by
  constructor
  · -- the file is made by `open`
    apply open_creates (pageList .base) (RamFsTree.emptyRoot (List VmPage))
    · intro hmem
      cases List.eq_of_mem_replicate hmem
    · rintro (hnil | hdot)
      · have hlength := longName_length
        rw [hnil, List.length_nil] at hlength
        omega
      · have hlength := longName_length
        rw [hdot, dot, List.length_singleton] at hlength
        omega
    · rfl
    · rfl
  · intro h
    -- the record's length is 2^16, which its field cannot hold
    have hsize : recSize longListing.d.tree 1 = 65536 :=
      recSize_longest ((congrArg List.length longListing_name).trans longName_length)
    have hnext : longListing.next 65536 = [] ++ 1 :: [] := by
      change fitting longListing.d.tree 65536 0 [1] = [1]
      rw [fitting, hsize, if_neg (by decide)]
      rfl
    have hlong : ¬ ShortName longListing.d.tree 1 := by
      rw [shortName_iff, hsize]
      decide
    have hfront : ∀ c ∈ ([] : List Nat), ShortName longListing.d.tree c := by
      intro c hc
      cases hc
    exact (long_not_walkExact hnext hfront hlong (fun _ => 0) (fun _ => 0)).2 (h _ _ _)

end Ceryx.Fs.Vfs
