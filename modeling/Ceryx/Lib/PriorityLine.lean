import Mathlib.Data.List.Sort
import Mathlib.Logic.Function.Basic
import Mathlib.Order.Lattice
import Mathlib.Tactic.Common

/-!
# Ceryx.Lib.PriorityLine — one line ordered by level

A `Line` is a queue whose entries carry a level and stand in the order of their
levels. A newcomer stands behind everybody of its own level or a better one, and
the first of the line is served next.

* `Line.enter`, `Line.raise`, `Line.serve?`: the operations, each of which keeps
  the line ordered.
* `Line.pair_enter`, `Line.members_raise`, `Line.pair_serve?`: none of them
  exchanges two members.
* `bucketEntries`: the line that one queue for each level stands for, and what a
  push, a pop and a merge of the queues do to it.
-/

namespace Ceryx.Lib

universe u v

variable {ι : Type u} {α : Type v}

/-! ## One queue for each level -/

variable {is : List ι} {q : ι → List α}

/-- The queues one after the other, in the order of their levels. -/
def bucketEntries (is : List ι) (q : ι → List α) : List (ι × α) :=
  is.flatMap fun i => (q i).map fun a => (i, a)

theorem mem_bucketEntries {e : ι × α} : e ∈ bucketEntries is q ↔ e.1 ∈ is ∧ e.2 ∈ q e.1 := by
  unfold bucketEntries
  rw [List.mem_flatMap]
  constructor
  · rintro ⟨i, hi, he⟩
    rcases List.mem_map.mp he with ⟨a, ha, rfl⟩
    exact ⟨hi, ha⟩
  · rintro ⟨hi, ha⟩
    exact ⟨e.1, hi, List.mem_map.mpr ⟨e.2, ha, rfl⟩⟩

theorem bucketEntries_members (is : List ι) (q : ι → List α) :
    (bucketEntries is q).map Prod.snd = is.flatMap q := by
  unfold bucketEntries
  rw [List.map_flatMap]
  congr 1
  funext i
  rw [List.map_map]
  exact List.map_id (q i)

theorem bucketEntries_congr {q' : ι → List α} (h : ∀ i ∈ is, q i = q' i) :
    bucketEntries is q = bucketEntries is q' := by
  induction is with
  | nil => rfl
  | cons i is ih =>
      unfold bucketEntries at ih ⊢
      rw [List.flatMap_cons, List.flatMap_cons, h i List.mem_cons_self,
        ih fun j hj => h j (List.mem_cons_of_mem i hj)]

theorem bucketEntries_nil (h : ∀ i ∈ is, q i = []) : bucketEntries is q = [] := by
  rw [bucketEntries_congr h]
  exact List.flatMap_eq_nil_iff.mpr fun _ _ => rfl

theorem bucketEntries_cons (i : ι) (is : List ι) (q : ι → List α) :
    bucketEntries (i :: is) q = (q i).map (fun a => (i, a)) ++ bucketEntries is q :=
  List.flatMap_cons

/-- All queues appended to the first one. -/
theorem bucketEntries_merge {i : ι} {q' : ι → List α} (hfirst : q' i = (i :: is).flatMap q)
    (hothers : ∀ j ∈ is, q' j = []) :
    bucketEntries (i :: is) q' = (bucketEntries (i :: is) q).map fun e => (i, e.2) := by
  rw [bucketEntries_cons, bucketEntries_nil hothers, List.append_nil, hfirst,
    ← bucketEntries_members, List.map_map]
  rfl

variable [LinearOrder ι]

/-! ## The line -/

/-- Entries in the order of their levels. -/
structure Line (ι : Type u) (α : Type v) [LinearOrder ι] where
  entries : List (ι × α)
  ordered : entries.Pairwise fun e f => e.1 ≤ f.1

/-- Behind every entry of the same or a better level. -/
def enterEntries (e : ι × α) (es : List (ι × α)) : List (ι × α) :=
  es.orderedInsert (fun e f => e.1 < f.1) e

theorem enterEntries_append {e : ι × α} {es : List (ι × α)} (hes : ∀ f ∈ es, f.1 ≤ e.1)
    (fs : List (ι × α)) : enterEntries e (es ++ fs) = es ++ enterEntries e fs := by
  induction es with
  | nil => rfl
  | cons f es ih =>
      have hf : ¬ e.1 < f.1 := not_lt.mpr (hes f List.mem_cons_self)
      have hrest := ih fun g hg => hes g (List.mem_cons_of_mem f hg)
      unfold enterEntries at hrest ⊢
      rw [List.cons_append, List.orderedInsert_cons, if_neg hf, hrest]
      rfl

theorem enterEntries_front {e : ι × α} {fs : List (ι × α)} (hfs : ∀ f ∈ fs, e.1 < f.1) :
    enterEntries e fs = e :: fs := by
  cases fs with
  | nil => rfl
  | cons f fs => exact if_pos (hfs f List.mem_cons_self)

theorem ordered_enterEntries (e : ι × α) {es : List (ι × α)}
    (hes : es.Pairwise fun e f => e.1 ≤ f.1) :
    (enterEntries e es).Pairwise fun e f => e.1 ≤ f.1 := by
  induction es with
  | nil => exact List.pairwise_singleton _ _
  | cons f es ih =>
      obtain ⟨hhead, htail⟩ := List.pairwise_cons.mp hes
      unfold enterEntries
      rw [List.orderedInsert_cons]
      split
      · -- it enters before `f`
        rename_i hlt
        refine List.pairwise_cons.mpr ⟨?_, hes⟩
        intro g hg
        rcases List.mem_cons.mp hg with rfl | hg'
        · exact hlt.le
        · exact hlt.le.trans (hhead g hg')
      · -- it enters behind `f`
        rename_i hge
        refine List.pairwise_cons.mpr ⟨?_, ih htail⟩
        intro g hg
        rcases (List.mem_orderedInsert _).mp hg with rfl | hg'
        · exact not_lt.mp hge
        · exact hhead g hg'

namespace Line

@[ext] theorem ext {q q' : Line ι α} (h : q.entries = q'.entries) : q = q' := by
  cases q
  cases q'
  cases h
  rfl

/-- Who stands in the line. -/
def members (q : Line ι α) : List α := q.entries.map Prod.snd

/-- A newcomer. -/
def enter (q : Line ι α) (l : ι) (a : α) : Line ι α where
  entries := enterEntries (l, a) q.entries
  ordered := ordered_enterEntries (l, a) q.ordered

/-- Everybody gets the same level and keeps the place. -/
def raise (q : Line ι α) (l : ι) : Line ι α where
  entries := q.entries.map fun e => (l, e.2)
  ordered := List.pairwise_map.mpr (List.pairwise_of_forall fun _ _ => le_rfl)

/-- The first of the line and the others. -/
def serve? (q : Line ι α) : Option ((ι × α) × Line ι α) :=
  match h : q.entries with
  | [] => none
  | e :: es => some (e, ⟨es, (List.pairwise_cons.mp (h ▸ q.ordered)).2⟩)

theorem serve?_nil {q : Line ι α} (h : q.entries = []) : q.serve? = none := by
  unfold serve?
  split
  · rfl
  · rename_i heq
    rw [h] at heq
    cases heq

theorem serve?_cons {q q' : Line ι α} {e : ι × α} (h : q.entries = e :: q'.entries) :
    q.serve? = some (e, q') := by
  unfold serve?
  split
  · rename_i heq
    rw [h] at heq
    cases heq
  · rename_i heq
    rw [h] at heq
    cases heq
    rfl

theorem entries_of_serve? {q q' : Line ι α} {e : ι × α} (h : q.serve? = some (e, q')) :
    q.entries = e :: q'.entries := by
  unfold serve? at h
  split at h
  · cases h
  · rename_i heq
    cases h
    exact heq

/-! ## Nobody is overtaken -/

theorem members_enter (q : Line ι α) (l : ι) (a : α) : q.members.Sublist (q.enter l a).members :=
  (List.sublist_orderedInsert _ _).map Prod.snd

@[simp] theorem members_raise (q : Line ι α) (l : ι) : (q.raise l).members = q.members := by
  simp [members, raise]

/-- Two members in this order stay so when a third one enters. -/
theorem pair_enter {q : Line ι α} {a b : α} (h : [a, b].Sublist q.members) (l : ι) (c : α) :
    [a, b].Sublist (q.enter l c).members :=
  h.trans (members_enter q l c)

/-- Serving somebody else than the first of the two leaves them in this order,
and it is not the second who is served. -/
theorem pair_serve? {q q' : Line ι α} {e : ι × α} {a b : α} (hnodup : q.members.Nodup)
    (h : [a, b].Sublist q.members) (hserve : q.serve? = some (e, q')) (hne : e.2 ≠ a) :
    e.2 ≠ b ∧ [a, b].Sublist q'.members := by
  have hmembers : q.members = e.2 :: q'.members := by
    rw [members, entries_of_serve? hserve]
    rfl
  rw [hmembers] at h hnodup
  have hrest : [a, b].Sublist q'.members := by
    rcases List.sublist_cons_iff.mp h with hrest | ⟨r, heq, -⟩
    · exact hrest
    · exact absurd (List.cons.inj heq).1.symm hne
  refine ⟨?_, hrest⟩
  -- the second of the two is behind the one who is served
  rintro rfl
  exact (List.nodup_cons.mp hnodup).1 (hrest.subset (by simp))

end Line

/-! ## What happens to the line when a queue changes -/

theorem ordered_bucketEntries (his : is.Pairwise (· < ·)) (q : ι → List α) :
    (bucketEntries is q).Pairwise fun e f => e.1 ≤ f.1 := by
  induction is with
  | nil => exact List.Pairwise.nil
  | cons i is ih =>
      obtain ⟨hhead, htail⟩ := List.pairwise_cons.mp his
      rw [bucketEntries_cons]
      refine List.pairwise_append.mpr ⟨?_, ih htail, ?_⟩
      · exact List.pairwise_map.mpr (List.pairwise_of_forall fun _ _ => le_rfl)
      · intro e he f hf
        rcases List.mem_map.mp he with ⟨a, -, rfl⟩
        exact (hhead f.1 (mem_bucketEntries.mp hf).1).le

/-- A push to one of the queues is a newcomer of its level. -/
theorem bucketEntries_push (his : is.Pairwise (· < ·)) {l : ι} (hl : l ∈ is) (a : α) :
    bucketEntries is (Function.update q l (q l ++ [a])) =
      enterEntries (l, a) (bucketEntries is q) := by
  induction is with
  | nil => exact absurd hl List.not_mem_nil
  | cons i is ih =>
      obtain ⟨hhead, htail⟩ := List.pairwise_cons.mp his
      rw [bucketEntries_cons, bucketEntries_cons]
      by_cases hli : l = i
      · -- behind its own queue and in front of all the others
        subst hli
        have hothers : bucketEntries is (Function.update q l (q l ++ [a])) = bucketEntries is q :=
          bucketEntries_congr fun j hj => Function.update_of_ne (hhead j hj).ne' _ _
        rw [hothers, Function.update_self, List.map_append, enterEntries_append,
          enterEntries_front, List.append_assoc]
        · rfl
        · exact fun f hf => hhead f.1 (mem_bucketEntries.mp hf).1
        · intro f hf
          rcases List.mem_map.mp hf with ⟨b, -, rfl⟩
          exact le_rfl
      · have hl' : l ∈ is := (List.mem_cons.mp hl).resolve_left hli
        rw [Function.update_of_ne (Ne.symm hli), enterEntries_append, ih htail hl']
        intro f hf
        rcases List.mem_map.mp hf with ⟨b, -, rfl⟩
        exact (hhead l hl').le

/-- The head of the first queue that is not empty is the first of the line. -/
theorem bucketEntries_pop (his : is.Pairwise (· < ·)) {i : ι} (hi : i ∈ is) {a : α} {rest : List α}
    (hq : q i = a :: rest) (hbefore : ∀ j ∈ is, j < i → q j = []) :
    bucketEntries is q = (i, a) :: bucketEntries is (Function.update q i rest) := by
  -- over the buckets up to `i`: those before it are empty
  induction is with
  | nil => exact absurd hi List.not_mem_nil
  | cons j is ih =>
      obtain ⟨hhead, htail⟩ := List.pairwise_cons.mp his
      rw [bucketEntries_cons, bucketEntries_cons]
      by_cases hij : i = j
      · subst hij
        have hothers : bucketEntries is (Function.update q i rest) = bucketEntries is q :=
          bucketEntries_congr fun k hk => Function.update_of_ne (hhead k hk).ne' _ _
        rw [hothers, hq, Function.update_self]
        rfl
      · have hi' : i ∈ is := (List.mem_cons.mp hi).resolve_left hij
        have hempty : q j = [] := hbefore j List.mem_cons_self (hhead i hi')
        rw [Function.update_of_ne (Ne.symm hij), hempty,
          ih htail hi' fun k hk => hbefore k (List.mem_cons_of_mem j hk)]
        rfl

theorem Line.entries_foldl_enter (level : α → ι) (as : List α) (q : Line ι α) :
    (as.foldl (fun q a => q.enter (level a) a) q).entries =
      as.foldl (fun es a => enterEntries (level a, a) es) q.entries := by
  induction as generalizing q with
  | nil => rfl
  | cons a as ih => exact ih (q.enter (level a) a)

/-- Pushing several, each to the queue of its level. -/
theorem bucketEntries_pushAll (his : is.Pairwise (· < ·)) {level : α → ι} {as : List α}
    (hlevel : ∀ a ∈ as, level a ∈ is) {q' : ι → List α}
    (hq' : ∀ i, q' i = q i ++ as.filter fun a => level a = i) :
    bucketEntries is q' =
      as.foldl (fun es a => enterEntries (level a, a) es) (bucketEntries is q) := by
  induction as generalizing q with
  | nil => exact bucketEntries_congr fun i _ => by simp [hq']
  | cons a as ih =>
      rw [List.foldl_cons, ← bucketEntries_push his (hlevel a List.mem_cons_self)]
      refine ih (fun b hb => hlevel b (List.mem_cons_of_mem a hb)) ?_
      intro i
      rw [hq', List.filter_cons]
      by_cases hi : level a = i
      · subst hi
        simp
      · simp [hi, Ne.symm hi]

end Ceryx.Lib
