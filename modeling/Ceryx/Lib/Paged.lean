import Mathlib.Logic.Function.Basic
import Mathlib.Data.List.Basic

/-!
# Ceryx.Lib.Paged — ranges of memory, sparse files and files kept in frames

A memory is a function from positions to values.

* `blit`, `slice`: a list laid over a memory at a position, and a range of it.
* `SparseFile`: what a file is for. Writes at any offset, a default value where
  none went.
* `Frames`: files kept in the frames of one memory, by a table of pages for
  each file. Two pages never share a frame.
* `content`: the file a table stands for. `Frames.content_blit`,
  `Frames.content_alloc` and `Frames.content_outside` are what the changes of
  the memory do to all files at once.
-/

namespace Ceryx.Lib

universe u v

variable {α : Type u}

/-! ## Ranges -/

/-- `src` laid over `f` from position `p` on. -/
def blit (f : Nat → α) (p : Nat) (src : List α) : Nat → α := fun a =>
  if p ≤ a then (src[a - p]?).getD (f a) else f a

/-- The `n` values of `f` from position `p` on. -/
def slice (f : Nat → α) (p n : Nat) : List α := (List.range n).map fun j => f (p + j)

theorem blit_outside {f : Nat → α} {p a : Nat} {src : List α} (h : a < p ∨ p + src.length ≤ a) :
    blit f p src a = f a := by
  unfold blit
  split
  · have hlen : src.length ≤ a - p := by omega
    rw [List.getElem?_eq_none hlen]
    rfl
  · rfl

theorem blit_inside (f : Nat → α) (p : Nat) {src : List α} {j : Nat} (h : j < src.length) :
    blit f p src (p + j) = src[j] := by
  unfold blit
  rw [if_pos (Nat.le_add_right p j), Nat.add_sub_cancel_left, List.getElem?_eq_getElem h]
  rfl

@[simp] theorem blit_nil (f : Nat → α) (p : Nat) : blit f p [] = f := by
  funext a
  apply blit_outside
  rw [List.length_nil, Nat.add_zero]
  exact Nat.lt_or_ge a p

/-- The same list, laid over two memories that agree where it does not go. -/
theorem blit_eq_blit {f g : Nat → α} {p q a b : Nat} {src : List α} (hp : p ≤ a)
    (hab : a - p = b - q) (hq : q ≤ b) (hfg : f a = g b) : blit f p src a = blit g q src b := by
  unfold blit
  rw [if_pos hp, if_pos hq, hab, hfg]

theorem blit_append (f : Nat → α) (p : Nat) (xs ys : List α) :
    blit (blit f p xs) (p + xs.length) ys = blit f p (xs ++ ys) := by
  funext a
  -- before the end of the first, or behind it
  by_cases hbefore : a < p + xs.length
  · rw [blit_outside (Or.inl hbefore)]
    by_cases hp : a < p
    · rw [blit_outside (Or.inl hp), blit_outside (Or.inl hp)]
    · have hlt : a - p < xs.length := by omega
      have ha : a = p + (a - p) := by omega
      have hlt' : a - p < (xs ++ ys).length := by
        rw [List.length_append]
        omega
      rw [ha, blit_inside f p hlt, blit_inside f p hlt', List.getElem_append_left hlt]
  · by_cases hin : a < p + xs.length + ys.length
    · have hlt : a - (p + xs.length) < ys.length := by omega
      have ha : a = p + xs.length + (a - (p + xs.length)) := by omega
      have hlt' : xs.length + (a - (p + xs.length)) < (xs ++ ys).length := by
        rw [List.length_append]
        omega
      rw [ha, blit_inside _ _ hlt, Nat.add_assoc, blit_inside f p hlt',
        List.getElem_append_right (Nat.le_add_right _ _)]
      simp
    · have hall : p + (xs ++ ys).length ≤ a := by
        rw [List.length_append]
        omega
      rw [blit_outside (Or.inr (by omega)), blit_outside (Or.inr (by omega)),
        blit_outside (Or.inr hall)]

@[simp] theorem slice_length (f : Nat → α) (p n : Nat) : (slice f p n).length = n := by
  simp [slice]

theorem slice_add (f : Nat → α) (p m n : Nat) :
    slice f p (m + n) = slice f p m ++ slice f (p + m) n := by
  simp [slice, List.range_add, Nat.add_assoc]

theorem slice_take (f : Nat → α) (p : Nat) {m n : Nat} (h : m ≤ n) :
    (slice f p n).take m = slice f p m := by
  have hn : n = m + (n - m) := by omega
  rw [hn, slice_add]
  exact List.take_left' (slice_length f p m)

theorem slice_eq_iff {f g : Nat → α} {p q n : Nat} :
    slice f p n = slice g q n ↔ ∀ j, j < n → f (p + j) = g (q + j) := by
  unfold slice
  rw [List.map_inj_left]
  exact ⟨fun h j hj => h j (List.mem_range.mpr hj), fun h j hj => h j (List.mem_range.mp hj)⟩

theorem slice_eq_replicate {f : Nat → α} {p n : Nat} {x : α} (h : ∀ j, j < n → f (p + j) = x) :
    slice f p n = List.replicate n x := by
  rw [List.eq_replicate_iff]
  refine ⟨slice_length f p n, ?_⟩
  intro b hb
  rcases List.mem_map.mp hb with ⟨j, hj, rfl⟩
  exact h j (List.mem_range.mp hj)

theorem slice_blit_self (f : Nat → α) (p : Nat) (src : List α) :
    slice (blit f p src) p src.length = src := by
  apply List.ext_getElem
  · exact slice_length _ _ _
  · intro j hj hj'
    simp [slice, blit_inside f p hj']

/-- A range next to what is stored. -/
theorem slice_blit_outside {f : Nat → α} {p q n : Nat} {src : List α}
    (h : p + n ≤ q ∨ q + src.length ≤ p) : slice (blit f q src) p n = slice f p n := by
  apply slice_eq_iff.mpr
  intro j hj
  apply blit_outside
  omega

/-! ## Ranges that wrap

The positions are those below `N`; behind the last one comes position 0. -/

/-- `src` laid over the positions below `N` of `f`, from position `p` on. -/
def ringBlit (N : Nat) (f : Nat → α) (p : Nat) (src : List α) : Nat → α := fun a =>
  if a < N then (src[if p ≤ a then a - p else a + N - p]?).getD (f a) else f a

/-- The `n` values of `f` from position `p` on. -/
def ringSlice (N : Nat) (f : Nat → α) (p n : Nat) : List α :=
  (List.range n).map fun j => f ((p + j) % N)

@[simp] theorem ringBlit_nil (N : Nat) (f : Nat → α) (p : Nat) : ringBlit N f p [] = f := by
  funext a
  unfold ringBlit
  split <;> rfl

/-- A range that does not wrap. -/
theorem ringBlit_eq_blit {N : Nat} {f : Nat → α} {p : Nat} {src : List α}
    (h : p + src.length ≤ N) : ringBlit N f p src = blit f p src := by
  funext a
  unfold ringBlit
  by_cases hp : p ≤ a
  · rw [if_pos hp]
    split
    · -- the position is `a - p` of the list in both
      unfold blit
      rw [if_pos hp]
    · rw [blit_outside (Or.inr (by omega))]
  · rw [if_neg hp, blit_outside (Or.inl (by omega))]
    split
    · have hout : src.length ≤ a + N - p := by omega
      rw [List.getElem?_eq_none hout]
      rfl
    · rfl

/-- A place of a range that goes round at most once. -/
theorem ring_mod {N p j : Nat} (hp : p < N) (hj : j < N) :
    (p + j) % N = if p + j < N then p + j else p + j - N := by
  split
  · rename_i hlt
    exact Nat.mod_eq_of_lt hlt
  · rename_i hge
    rw [Nat.mod_eq_sub_mod (Nat.not_lt.mp hge), Nat.mod_eq_of_lt (by omega)]

theorem ring_inj {N p i j : Nat} (hp : p < N) (hi : i < N) (hj : j < N)
    (h : (p + i) % N = (p + j) % N) : i = j := by
  rw [ring_mod hp hi, ring_mod hp hj] at h
  split at h <;> split at h <;> omega

/-- The place of a range that is laid over position `a`. -/
theorem ring_place {N p a : Nat} (hp : p < N) (ha : a < N) :
    (p + if p ≤ a then a - p else a + N - p) % N = a := by
  split
  · rename_i hle
    rw [Nat.add_sub_cancel' hle, Nat.mod_eq_of_lt ha]
  · have hround : p + (a + N - p) = a + N := by omega
    rw [hround, Nat.add_mod_right, Nat.mod_eq_of_lt ha]

/-- What position `j` of the list is laid over. -/
theorem ringBlit_inside {N : Nat} (f : Nat → α) {p j : Nat} {src : List α} (hp : p < N)
    (hlen : src.length ≤ N) (hj : j < src.length) :
    ringBlit N f p src ((p + j) % N) = src[j] := by
  have hN : 0 < N := by omega
  have hlt : (p + j) % N < N := Nat.mod_lt _ hN
  unfold ringBlit
  rw [if_pos hlt]
  have hplace : (if p ≤ (p + j) % N then (p + j) % N - p else (p + j) % N + N - p) = j := by
    rw [ring_mod hp (Nat.lt_of_lt_of_le hj hlen)]
    split <;> split <;> omega
  rw [hplace, List.getElem?_eq_getElem hj]
  rfl

/-- A position that no value is laid over. -/
theorem ringBlit_outside {N : Nat} {f : Nat → α} {p a : Nat} {src : List α} (hp : p < N)
    (h : ∀ j, j < src.length → (p + j) % N ≠ a) : ringBlit N f p src a = f a := by
  unfold ringBlit
  split
  · rename_i ha
    have hnone : src.length ≤ if p ≤ a then a - p else a + N - p := by
      by_contra hlt
      rw [Nat.not_le] at hlt
      exact h _ hlt (ring_place hp ha)
    rw [List.getElem?_eq_none hnone]
    rfl
  · rfl

/-- Values laid over themselves. -/
theorem ringBlit_same {N : Nat} {f : Nat → α} {p : Nat} {src : List α} (hp : p < N)
    (h : ∀ j x, src[j]? = some x → f ((p + j) % N) = x) : ringBlit N f p src = f := by
  funext a
  unfold ringBlit
  split
  · rename_i ha
    cases hx : src[if p ≤ a then a - p else a + N - p]? with
    | none => rfl
    | some x =>
        have hsame := h _ x hx
        rw [ring_place hp ha] at hsame
        exact hsame.symm
  · rfl

/-- Two ranges, one behind the other, that together go round at most once. -/
theorem ringBlit_append {N : Nat} (f : Nat → α) {p : Nat} (hp : p < N) {xs ys : List α}
    (hlen : xs.length + ys.length ≤ N) :
    ringBlit N (ringBlit N f p xs) ((p + xs.length) % N) ys = ringBlit N f p (xs ++ ys) := by
  have hN : 0 < N := by omega
  have hq : (p + xs.length) % N < N := Nat.mod_lt _ hN
  have hlen' : (xs ++ ys).length ≤ N := by
    rw [List.length_append]
    exact hlen
  funext a
  by_cases hx : ∃ j, j < xs.length ∧ (p + j) % N = a
  · -- a position of the first range
    rcases hx with ⟨j, hj, rfl⟩
    have hj' : j < (xs ++ ys).length := by
      rw [List.length_append]
      omega
    rw [ringBlit_inside f hp hlen' hj', List.getElem_append_left hj]
    have hnot : ∀ l, l < ys.length → ((p + xs.length) % N + l) % N ≠ (p + j) % N := by
      intro l hl heq
      rw [Nat.mod_add_mod, Nat.add_assoc] at heq
      exact Nat.ne_of_gt (by omega) (ring_inj hp (by omega) (by omega) heq)
    rw [ringBlit_outside hq hnot, ringBlit_inside f hp (by omega) hj]
  · by_cases hy : ∃ l, l < ys.length ∧ ((p + xs.length) % N + l) % N = a
    · -- a position of the second range
      rcases hy with ⟨l, hl, rfl⟩
      have hj' : xs.length + l < (xs ++ ys).length := by
        rw [List.length_append]
        omega
      rw [ringBlit_inside _ hq (by omega) hl, Nat.mod_add_mod, Nat.add_assoc,
        ringBlit_inside f hp hlen' hj', List.getElem_append_right (Nat.le_add_right _ _)]
      simp
    · have hout : ∀ j, j < (xs ++ ys).length → (p + j) % N ≠ a := by
        intro j hj heq
        rw [List.length_append] at hj
        rcases Nat.lt_or_ge j xs.length with hlt | hge
        · exact hx ⟨j, hlt, heq⟩
        · refine hy ⟨j - xs.length, by omega, ?_⟩
          rw [Nat.mod_add_mod, Nat.add_assoc, Nat.add_sub_cancel' hge]
          exact heq
      rw [ringBlit_outside hp hout, ringBlit_outside hq fun l hl heq => hy ⟨l, hl, heq⟩,
        ringBlit_outside hp fun j hj heq => hx ⟨j, hj, heq⟩]

@[simp] theorem ringSlice_length (N : Nat) (f : Nat → α) (p n : Nat) :
    (ringSlice N f p n).length = n := by
  simp [ringSlice]

theorem ringSlice_add (N : Nat) (f : Nat → α) (p m n : Nat) :
    ringSlice N f p (m + n) = ringSlice N f p m ++ ringSlice N f (p + m) n := by
  simp [ringSlice, List.range_add, Nat.add_assoc]

theorem ringSlice_eq_slice {N : Nat} (f : Nat → α) {p n : Nat} (h : p + n ≤ N) :
    ringSlice N f p n = slice f p n := by
  unfold ringSlice slice
  apply List.map_congr_left
  intro j hj
  have hlt : p + j < N := Nat.lt_of_lt_of_le (Nat.add_lt_add_left (List.mem_range.mp hj) p) h
  rw [Nat.mod_eq_of_lt hlt]

/-- Only the place of the first position modulo `N` matters. -/
theorem ringSlice_mod (N : Nat) (f : Nat → α) (p n : Nat) :
    ringSlice N f (p % N) n = ringSlice N f p n := by
  simp [ringSlice]

/-- The values that were laid over nothing, and the rest from below. -/
theorem ringBlit_getD {N : Nat} {f under : Nat → α} {g : Nat → Option α} {p : Nat} {src : List α}
    (h : ∀ a, f a = (g a).getD (under a)) (a : Nat) :
    ringBlit N f p src a = (ringBlit N g p (src.map some) a).getD (under a) := by
  unfold ringBlit
  split
  · rw [List.getElem?_map]
    cases src[if p ≤ a then a - p else a + N - p]? with
    | none => exact h a
    | some x => rfl
  · exact h a

/-! ## Sparse files -/

/-- A file of `size` values. Past the size the values are kept for the writes
that make the file longer. -/
structure SparseFile (α : Type u) where
  size : Nat
  get : Nat → α

namespace SparseFile

/-- A new file. -/
def empty (x : α) : SparseFile α := ⟨0, fun _ => x⟩

def write (f : SparseFile α) (offset : Nat) (src : List α) : SparseFile α :=
  ⟨max f.size (offset + src.length), blit f.get offset src⟩

/-- How many values a read gets. -/
def count (f : SparseFile α) (size offset : Nat) : Nat := min size (f.size - offset)

def read (f : SparseFile α) (size offset : Nat) : List α := slice f.get offset (f.count size offset)

/-- All values. -/
def whole (f : SparseFile α) : List α := slice f.get 0 f.size

/-- A write at the end appends. -/
theorem whole_write (f : SparseFile α) {offset : Nat} {src : List α}
    (h : offset ≤ f.size ∧ src = [] ∨ offset = f.size) :
    (f.write offset src).whole = f.whole ++ src := by
  rcases h with ⟨hle, rfl⟩ | rfl
  · rw [whole, write, blit_nil, List.length_nil, Nat.add_zero, Nat.max_eq_left hle, List.append_nil]
    rfl
  · have hsize : max f.size (f.size + src.length) = f.size + src.length :=
      Nat.max_eq_right (Nat.le_add_right _ _)
    rw [whole, write, hsize]
    dsimp only
    rw [slice_add, Nat.zero_add]
    have hold : slice (blit f.get f.size src) 0 f.size = f.whole :=
      slice_blit_outside (.inl (Nat.le_of_eq (Nat.zero_add _)))
    rw [hold, slice_blit_self]

end SparseFile

/-! ## Frames -/

variable {κ : Type v}

/-- The tables of the files `κ` map pages to frames: no frame twice, and only
frames that are taken. -/
structure Frames (tables : κ → Nat → Option Nat) (used : List Nat) : Prop where
  inj : ∀ i k j l p, tables i k = some p → tables j l = some p → i = j ∧ k = l
  taken : ∀ i k p, tables i k = some p → p ∈ used

/-- The value of a file at a position, for frames of `P` values: `x` where the
page has no frame. -/
def content (P : Nat) (x : α) (mem : Nat → α) (table : Nat → Option Nat) (a : Nat) : α :=
  match table (a / P) with
  | some p => mem (p * P + a % P)
  | none => x

variable {P : Nat} {x : α} {mem : Nat → α} {tables : κ → Nat → Option Nat} {used : List Nat}

theorem content_none {table : Nat → Option Nat} {a : Nat} (h : table (a / P) = none) :
    content P x mem table a = x := by
  simp [content, h]

theorem content_some {table : Nat → Option Nat} {a p : Nat} (h : table (a / P) = some p) :
    content P x mem table a = mem (p * P + a % P) := by
  simp [content, h]

/-- A position of a frame. -/
theorem page_div {p r : Nat} (h : r < P) : (p * P + r) / P = p := by
  rw [Nat.mul_comm, Nat.mul_add_div (Nat.zero_lt_of_lt h), Nat.div_eq_of_lt h, Nat.add_zero]

/-- A range inside a frame has the positions of this frame only. -/
theorem outside_of_div_ne {p r n a : Nat} (hfit : r + n ≤ P) (hne : a / P ≠ p) :
    a < p * P + r ∨ p * P + r + n ≤ a := by
  by_contra hin
  rw [not_or, Nat.not_lt, Nat.not_le] at hin
  have hdiv : a / P = p := by
    apply Nat.div_eq_of_lt_le
    · exact Nat.le_trans (Nat.le_add_right _ _) hin.1
    · rw [Nat.succ_mul]
      omega
  exact hne hdiv

namespace Frames

/-- A write inside a frame changes one page of one file. -/
theorem content_blit (h : Frames tables used) {i : κ} {k p : Nat} (hp : tables i k = some p)
    {r : Nat} {src : List α} (hfit : r + src.length ≤ P) (hP : 0 < P) :
    content P x (blit mem (p * P + r) src) (tables i) =
        blit (content P x mem (tables i)) (k * P + r) src ∧
      ∀ j, j ≠ i → content P x (blit mem (p * P + r) src) (tables j) =
        content P x mem (tables j) := by
  -- a position of another page is in another frame, which the write leaves alone
  have hother : ∀ j a, (j ≠ i ∨ a / P ≠ k) →
      content P x (blit mem (p * P + r) src) (tables j) a = content P x mem (tables j) a := by
    intro j a hne
    cases hq : tables j (a / P) with
    | none => rw [content_none hq, content_none hq]
    | some q =>
        rw [content_some hq, content_some hq]
        apply blit_outside
        apply outside_of_div_ne hfit
        rw [page_div (Nat.mod_lt _ hP)]
        rintro rfl
        rcases h.inj j (a / P) i k q hq hp with ⟨hji, hak⟩
        exact hne.elim (fun hj => hj hji) fun hk => hk hak
  constructor
  · funext a
    by_cases hak : a / P = k
    · rw [← hak] at hp ⊢
      rw [content_some hp]
      have ha : a / P * P + a % P = a := Nat.div_add_mod' a P
      by_cases hr : a % P < r
      · rw [blit_outside (Or.inl (by omega)), blit_outside (Or.inl (by omega)), content_some hp]
      · apply blit_eq_blit
        · omega
        · omega
        · omega
        · rw [content_some hp]
    · rw [hother i a (Or.inr hak), blit_outside (outside_of_div_ne hfit hak)]
  · intro j hj
    funext a
    exact hother j a (Or.inl hj)

/-- A write outside the frames changes no file. -/
theorem content_outside (h : Frames tables used) {a : Nat} {y : α} (ha : a / P ∉ used)
    (hP : 0 < P) (i : κ) : content P x (blit mem a [y]) (tables i) = content P x mem (tables i) := by
  funext b
  cases hq : tables i (b / P) with
  | none => rw [content_none hq, content_none hq]
  | some q =>
      rw [content_some hq, content_some hq]
      have hne : q * P + b % P ≠ a := by
        rintro rfl
        rw [page_div (Nat.mod_lt _ hP)] at ha
        exact ha (h.taken i _ q hq)
      apply blit_outside
      simp only [List.length_singleton]
      omega

variable [DecidableEq κ]

/-- One more page. -/
def addPage (tables : κ → Nat → Option Nat) (i : κ) (k p : Nat) : κ → Nat → Option Nat :=
  Function.update tables i (Function.update (tables i) k (some p))

theorem addPage_self (i : κ) (k p : Nat) : addPage tables i k p i k = some p := by
  simp [addPage]

theorem addPage_ne_file {i j : κ} (h : j ≠ i) (k p : Nat) : addPage tables i k p j = tables j := by
  simp [addPage, h]

theorem addPage_ne_page (i : κ) {k l : Nat} (h : l ≠ k) (p : Nat) :
    addPage tables i k p i l = tables i l := by
  simp [addPage, h]

theorem addPage_eq_some {i j : κ} {k l p q : Nat} (h : addPage tables i k p j l = some q) :
    (j = i ∧ l = k ∧ q = p) ∨ tables j l = some q := by
  by_cases hj : j = i
  · subst hj
    by_cases hl : l = k
    · subst hl
      rw [addPage_self] at h
      exact Or.inl ⟨rfl, rfl, (Option.some.inj h).symm⟩
    · rw [addPage_ne_page j hl] at h
      exact Or.inr h
  · rw [addPage_ne_file hj] at h
    exact Or.inr h

/-- A frame that is not taken may become a page. -/
theorem alloc (h : Frames tables used) (i : κ) (k : Nat) {p : Nat} (hp : p ∉ used) :
    Frames (addPage tables i k p) (p :: used) where
  inj j l j' l' q hq hq' := by
    rcases addPage_eq_some hq with ⟨hj, hl, hqp⟩ | hold <;>
      rcases addPage_eq_some hq' with ⟨hj', hl', hqp'⟩ | hold'
    · exact ⟨hj.trans hj'.symm, hl.trans hl'.symm⟩
    · exact absurd (h.taken _ _ _ hold') (hqp ▸ hp)
    · exact absurd (h.taken _ _ _ hold) (hqp' ▸ hp)
    · exact h.inj _ _ _ _ _ hold hold'
  taken j l q hq := by
    rcases addPage_eq_some hq with ⟨-, -, rfl⟩ | hold
    · exact List.mem_cons_self
    · exact List.mem_cons_of_mem _ (h.taken _ _ _ hold)

/-- A new frame full of `x` in the place of a missing page changes no file. -/
theorem content_alloc (h : Frames tables used) {i : κ} {k p : Nat} (hp : p ∉ used)
    (hk : tables i k = none) (hP : 0 < P) (j : κ) :
    content P x (blit mem (p * P) (List.replicate P x)) (addPage tables i k p j) =
      content P x mem (tables j) := by
  have hfit : 0 + (List.replicate P x).length ≤ P := by simp
  funext a
  by_cases hnew : j = i ∧ a / P = k
  · rcases hnew with ⟨rfl, rfl⟩
    -- the page that is added
    have hlt : a % P < (List.replicate P x).length := by
      rw [List.length_replicate]
      exact Nat.mod_lt _ hP
    rw [content_some (addPage_self j (a / P) p), content_none hk, blit_inside mem _ hlt,
      List.getElem_replicate]
  · -- any other page of any other file
    have htable : addPage tables i k p j (a / P) = tables j (a / P) := by
      by_cases hj : j = i
      · subst hj
        exact addPage_ne_page j (fun hak => hnew ⟨rfl, hak⟩) p
      · rw [addPage_ne_file hj]
    cases hq : tables j (a / P) with
    | none => rw [content_none (htable.trans hq), content_none hq]
    | some q =>
        rw [content_some (htable.trans hq), content_some hq]
        have hqp : q ≠ p := by
          rintro rfl
          exact hp (h.taken _ _ _ hq)
        have hdiv : (q * P + a % P) / P ≠ p := by
          rw [page_div (Nat.mod_lt _ hP)]
          exact hqp
        exact blit_outside (outside_of_div_ne hfit hdiv)

end Frames

end Ceryx.Lib
