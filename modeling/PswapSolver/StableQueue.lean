import Mathlib.Data.List.Sort
import Mathlib.Data.List.Perm.Basic

/-! # Queues ordered by priority, then by arrival

A priority queue that serves equal priorities in arrival order is a list sorted by
key (`Sorted`) into which a newcomer goes behind every element whose key is not
larger (`enqueue`).  Such a list is determined by its *classes*, the sublists of
the elements of one key (`eq_of_classes`), and `enqueue` appends to one class
(`cls_enqueue`).

The question a rollback raises is answered here once: elements are taken out and
put back through `enqueue`, in the order in which they stood.  The queue is the
same again **iff** in every class the elements taken out stood behind all the
others (`foldl_enqueue_eq_iff`).

A queue that elements enter by `enqueue` only is the stable sort of its elements in
the order of their last arrival (`Arrived.eq_mergeSort`).

The last part refines the list by what an index stores: one FIFO queue per key,
the keys in strictly ascending order (`Levels`).
-/
namespace StableQueue
variable {κ α : Type} [Ord κ]

section Queue
variable (key : α → κ)

/-- Keys never descend along the list. -/
def Sorted (l : List α) : Prop := l.Pairwise fun a b => (compare (key a) (key b)).isLE

/-- Inserts `a` behind every element whose key is not larger. -/
def enqueue (a : α) (l : List α) : List α :=
  l.orderedInsert (fun x y => compare (key x) (key y) = .lt) a

/-- The elements whose key compares equal to `k`, in queue order. -/
def cls (k : κ) (l : List α) : List α := l.filter fun a => compare (key a) k = .eq

variable {key}

@[simp] theorem enqueue_nil (a : α) : enqueue key a [] = [a] := rfl

theorem enqueue_cons (a b : α) (l : List α) :
    enqueue key a (b :: l) =
      if compare (key a) (key b) = .lt then a :: b :: l else b :: enqueue key a l := rfl

/-- An element passes a block in which no key is larger than its own. -/
theorem enqueue_append_of_not_lt {a : α} {l : List α}
    (hl : ∀ b ∈ l, ¬ compare (key a) (key b) = .lt) (r : List α) :
    enqueue key a (l ++ r) = l ++ enqueue key a r := by
  induction l with
  | nil => rfl
  | cons b l ih =>
    rw [List.cons_append, enqueue_cons, if_neg (hl b (List.mem_cons_self ..)),
      ih fun c hc => hl c (List.mem_cons_of_mem _ hc)]
    rfl

/-- And stops in front of a queue of larger keys. -/
theorem enqueue_of_forall_lt {a : α} {r : List α}
    (hr : ∀ b ∈ r, compare (key a) (key b) = .lt) : enqueue key a r = a :: r := by
  cases r with
  | nil => rfl
  | cons b r => rw [enqueue_cons, if_pos (hr b (List.mem_cons_self ..))]

@[simp] theorem mem_enqueue {a b : α} {l : List α} : a ∈ enqueue key b l ↔ a = b ∨ a ∈ l :=
  List.mem_orderedInsert _

theorem perm_enqueue (a : α) (l : List α) : (enqueue key a l).Perm (a :: l) :=
  List.perm_orderedInsert _ a l

theorem length_enqueue (a : α) (l : List α) : (enqueue key a l).length = l.length + 1 :=
  (perm_enqueue a l).length_eq

theorem enqueue_ne_nil {a : α} {l : List α} : enqueue key a l ≠ [] := fun h => by
  have hmem : a ∈ enqueue key a l := mem_enqueue.mpr (Or.inl rfl)
  rw [h] at hmem
  cases hmem

theorem nodup_enqueue {a : α} {l : List α} (ha : a ∉ l) (hl : l.Nodup) :
    (enqueue key a l).Nodup :=
  (perm_enqueue a l).nodup_iff.mpr (List.nodup_cons.mpr ⟨ha, hl⟩)

@[simp] theorem mem_cls {k : κ} {a : α} {l : List α} :
    a ∈ cls key k l ↔ a ∈ l ∧ compare (key a) k = .eq := by
  simp [cls]

theorem sorted_filter {l : List α} (h : Sorted key l) (p : α → Bool) : Sorted key (l.filter p) :=
  List.Pairwise.filter p h

variable [Std.TransOrd κ]

theorem sorted_enqueue {l : List α} (h : Sorted key l) (a : α) : Sorted key (enqueue key a l) := by
  induction l with
  | nil => exact List.pairwise_singleton _ _
  | cons b l ih =>
    obtain ⟨hb, hl⟩ := List.pairwise_cons.mp h
    rw [enqueue_cons]
    split
    · rename_i hab
      refine List.pairwise_cons.mpr ⟨?_, h⟩
      intro c hc
      rcases List.mem_cons.mp hc with rfl | hc
      · exact Ordering.isLE_of_eq_lt hab
      · exact Std.TransCmp.isLE_trans (Ordering.isLE_of_eq_lt hab) (hb c hc)
    · rename_i hab
      refine List.pairwise_cons.mpr ⟨?_, ih hl⟩
      intro c hc
      rcases mem_enqueue.mp hc with rfl | hc
      · exact Classical.byContradiction fun hn => hab (Std.OrientedCmp.lt_of_not_isLE hn)
      · exact hb c hc

/-- **A newcomer goes to the end of its class** and to no other. -/
theorem cls_enqueue {l : List α} (h : Sorted key l) (a : α) (k : κ) :
    cls key k (enqueue key a l) =
      if compare (key a) k = .eq then cls key k l ++ [a] else cls key k l := by
  induction l with
  | nil =>
    by_cases hk : compare (key a) k = .eq <;> simp [cls, hk]
  | cons b l ih =>
    obtain ⟨hb, hl⟩ := List.pairwise_cons.mp h
    rw [enqueue_cons]
    split
    · rename_i hab
      -- everything from `b` on has a larger key than `a`, so its class is empty here
      by_cases hk : compare (key a) k = .eq
      · have hnil : cls key k (b :: l) = [] := by
          refine List.filter_eq_nil_iff.mpr fun c hc hck => ?_
          have hck : compare (key c) k = .eq := of_decide_eq_true hck
          have hac : compare (key a) (key c) = .lt := by
            rcases List.mem_cons.mp hc with rfl | hc
            · exact hab
            · exact Std.TransCmp.lt_of_lt_of_isLE hab (hb c hc)
          have := Std.TransCmp.lt_of_lt_of_eq hac hck
          rw [hk] at this
          cases this
        rw [if_pos hk, hnil]
        show cls key k (a :: b :: l) = [a]
        rw [cls, List.filter_cons_of_pos (by simpa using hk)]
        exact congrArg (a :: ·) hnil
      · rw [if_neg hk]
        show cls key k (a :: b :: l) = cls key k (b :: l)
        rw [cls, List.filter_cons_of_neg (by simpa using hk)]
        rfl
    · have hstep (x : List α) : cls key k (b :: x) =
          if compare (key b) k = .eq then b :: cls key k x else cls key k x := by
        unfold cls
        rw [List.filter_cons]
        simp
      rw [hstep, hstep, ih hl]
      split <;> split <;> simp

/-- **A sorted queue is determined by its classes.** -/
theorem eq_of_classes {l l' : List α} (h : Sorted key l) (h' : Sorted key l')
    (hcls : ∀ k, cls key k l = cls key k l') : l = l' := by
  induction l generalizing l' with
  | nil =>
    cases l' with
    | nil => rfl
    | cons b l' =>
      have hb : b ∈ cls key (key b) [] := by
        rw [hcls]
        exact mem_cls.mpr ⟨List.mem_cons_self .., Std.ReflCmp.compare_self⟩
      cases hb
  | cons a l ih =>
    obtain ⟨ha, hl⟩ := List.pairwise_cons.mp h
    cases l' with
    | nil =>
      have ha : a ∈ cls key (key a) [] := by
        rw [← hcls]
        exact mem_cls.mpr ⟨List.mem_cons_self .., Std.ReflCmp.compare_self⟩
      cases ha
    | cons b l' =>
      obtain ⟨hb, hl'⟩ := List.pairwise_cons.mp h'
      have hle {x y : α} {m : List α} (hy : ∀ c ∈ m, (compare (key y) (key c)).isLE)
          (hx : x ∈ y :: m) : (compare (key y) (key x)).isLE := by
        rcases List.mem_cons.mp hx with rfl | hx
        · exact Std.ReflCmp.isLE_rfl
        · exact hy x hx
      have hba : (compare (key b) (key a)).isLE := hle hb (mem_cls.mp
        (hcls (key a) ▸ mem_cls.mpr ⟨List.mem_cons_self .., Std.ReflCmp.compare_self⟩)).1
      have hab : (compare (key a) (key b)).isLE := hle ha (mem_cls.mp
        ((hcls (key b)).symm ▸ mem_cls.mpr ⟨List.mem_cons_self .., Std.ReflCmp.compare_self⟩)).1
      have heq : compare (key b) (key a) = .eq := Std.OrientedCmp.isLE_antisymm hba hab
      -- the two heads are the first elements of one class
      have hhead := hcls (key a)
      rw [cls, List.filter_cons_of_pos (by simp), cls,
        List.filter_cons_of_pos (by simpa using heq)] at hhead
      obtain ⟨rfl, -⟩ := List.cons.inj hhead
      refine congrArg (a :: ·) (ih hl hl' fun k => ?_)
      have hk := hcls k
      unfold cls at hk ⊢
      rw [List.filter_cons, List.filter_cons] at hk
      split at hk
      · exact (List.cons.inj hk).2
      · exact hk

theorem sorted_foldl_enqueue {l : List α} (h : Sorted key l) (s : List α) :
    Sorted key (s.foldl (fun acc a => enqueue key a acc) l) := by
  induction s generalizing l with
  | nil => exact h
  | cons a s ih => exact ih (sorted_enqueue h a)

theorem cls_foldl_enqueue {l : List α} (h : Sorted key l) (s : List α) (k : κ) :
    cls key k (s.foldl (fun acc a => enqueue key a acc) l) = cls key k l ++ cls key k s := by
  induction s generalizing l with
  | nil => simp [cls]
  | cons a s ih =>
    rw [List.foldl_cons, ih (sorted_enqueue h a), cls_enqueue h a k]
    split
    · rename_i hk
      rw [List.append_assoc]
      refine congrArg (cls key k l ++ ·) ?_
      unfold cls
      rw [List.filter_cons_of_pos (by simpa using hk)]
      rfl
    · rename_i hk
      refine congrArg (cls key k l ++ ·) ?_
      unfold cls
      rw [List.filter_cons_of_neg (by simpa using hk)]

omit [Ord κ] [Std.TransOrd κ] in
/-- Splitting a list by a predicate and appending the two halves gives the list
back iff nothing outside the predicate stands behind something inside. -/
theorem filter_append_filter_eq_iff (p : α → Bool) (l : List α) :
    l.filter (fun a => !p a) ++ l.filter p = l ↔ l.Pairwise fun a b => p a → p b := by
  induction l with
  | nil => simp
  | cons a l ih =>
    rw [List.pairwise_cons]
    cases hp : p a with
    | false =>
      rw [List.filter_cons_of_pos (by simp [hp]), List.filter_cons_of_neg (by simp [hp]),
        List.cons_append, List.cons_inj_right, ih]
      simp
    | true =>
      rw [List.filter_cons_of_neg (by simp [hp]), List.filter_cons_of_pos hp]
      constructor
      · intro h
        -- the first half must be empty, for it would start the list
        have hnil : l.filter (fun b => !p b) = [] := by
          cases hf : l.filter (fun b => !p b) with
          | nil => rfl
          | cons b m =>
            rw [hf, List.cons_append] at h
            have hb : b ∈ l.filter (fun b => !p b) := hf ▸ List.mem_cons_self ..
            have := (List.mem_filter.mp hb).2
            rw [(List.cons.inj h).1, hp] at this
            cases this
        have hall : ∀ b ∈ l, p b := fun b hb => by
          have := List.filter_eq_nil_iff.mp hnil b hb
          simpa using this
        exact ⟨fun b hb _ => hall b hb, List.pairwise_iff_forall_sublist.mpr fun hs _ =>
          hall _ (hs.subset (by simp))⟩
      · rintro ⟨hall, -⟩
        have hall : ∀ b ∈ l, p b := fun b hb => hall b hb rfl
        rw [List.filter_eq_nil_iff.mpr (by simpa using hall), List.filter_eq_self.mpr hall]
        rfl

/-- **When taking out and putting back is the identity.**  The elements `p` picks
are removed and enqueued again in queue order; the queue is the old one iff no
element left in place stood behind a removed one of its own class. -/
theorem foldl_enqueue_eq_iff {l : List α} (h : Sorted key l) (p : α → Bool) :
    (l.filter p).foldl (fun acc a => enqueue key a acc) (l.filter fun a => !p a) = l ↔
      l.Pairwise fun a b => compare (key a) (key b) = .eq → p a → p b := by
  have hrest := sorted_filter h fun a => !p a
  have hcls (k : κ) : cls key k ((l.filter p).foldl (fun acc a => enqueue key a acc)
      (l.filter fun a => !p a)) = cls key k l ↔
      (cls key k l).Pairwise fun a b => p a → p b := by
    rw [cls_foldl_enqueue hrest, ← filter_append_filter_eq_iff]
    unfold cls
    rw [List.filter_filter, List.filter_filter, List.filter_filter, List.filter_filter]
    simp only [Bool.and_comm]
  constructor
  · intro heq
    refine List.pairwise_iff_forall_sublist.mpr fun {a b} hs hab hpa => ?_
    have hpw := (hcls (key b)).mp (by rw [heq])
    have hsub : [a, b].Sublist (cls key (key b) l) := by
      have := hs.filter fun x => decide (compare (key x) (key b) = .eq)
      rwa [List.filter_cons_of_pos (by simpa using hab), List.filter_cons_of_pos (by simp),
        List.filter_nil] at this
    exact List.pairwise_iff_forall_sublist.mp hpw hsub hpa
  · intro hpw
    refine eq_of_classes (sorted_foldl_enqueue hrest _) h fun k => (hcls k).mpr ?_
    refine List.pairwise_filter.mpr (hpw.imp ?_)
    intro a b hab hak hbk
    exact hab (Std.TransCmp.eq_trans (of_decide_eq_true hak)
      (Std.OrientedCmp.eq_symm (of_decide_eq_true hbk)))

end Queue

/-! ## Sublists without repetitions -/

section Sublists

/-- A sublist of a list without repetitions is the list filtered by membership. -/
theorem sublist_eq_filter [DecidableEq α] {l q : List α} (h : l.Sublist q)
    (hnd : q.Nodup) : q.filter (· ∈ l) = l := by
  induction h with
  | slnil => rfl
  | cons a h ih =>
    rw [List.nodup_cons] at hnd
    rw [List.filter_cons_of_neg (by simpa using fun hc => hnd.1 (h.subset hc)), ih hnd.2]
  | cons_cons a h ih =>
    rw [List.nodup_cons] at hnd
    rw [List.filter_cons_of_pos (by simp)]
    refine congrArg (a :: ·) ((List.filter_congr fun x hx => ?_).trans (ih hnd.2))
    have hxa : x ≠ a := fun e => hnd.1 (e ▸ hx)
    simp [hxa]

/-- The first element of a list is the first of every sublist that still holds it. -/
theorem head?_of_sublist {l l' : List α} {a : α} (hsub : l'.Sublist l) (hnd : l.Nodup)
    (hhead : l.head? = some a) (ha : a ∈ l') : l'.head? = some a := by
  cases hsub with
  | slnil => cases ha
  | cons x hsub =>
    obtain rfl : x = a := Option.some.inj hhead
    exact absurd (hsub.subset ha) (List.nodup_cons.mp hnd).1
  | cons_cons x hsub => exact hhead

end Sublists

/-! ## The order of arrival -/

section Arrival
variable {key : α → κ} {log l l' : List α} {a : α}

/-- **The queue keeps the order of arrival**: `log` lists elements in the order of their
last arrival, and those of one key stand in this order. -/
structure Arrived (key : α → κ) (log l : List α) : Prop where
  sorted : Sorted key l
  nodup : l.Nodup
  classes : ∀ k, (cls key k l).Sublist log

theorem arrived_nil : Arrived key log [] :=
  ⟨List.Pairwise.nil, List.nodup_nil, fun _ => List.nil_sublist _⟩

/-- A queue that only loses elements keeps the order of arrival. -/
theorem Arrived.of_sublist (h : Arrived key log l) (hs : l'.Sublist l) : Arrived key log l' :=
  ⟨List.Pairwise.sublist hs h.sorted, h.nodup.sublist hs,
    fun k => (hs.filter _).trans (h.classes k)⟩

theorem Arrived.congr {key' : α → κ} (h : Arrived key log l)
    (heq : ∀ a ∈ l, key' a = key a) : Arrived key' log l := by
  refine ⟨h.sorted.imp_of_mem fun ha hb hab => ?_, h.nodup, fun k => ?_⟩
  · rw [heq _ ha, heq _ hb]
    exact hab
  · have hcls : cls key' k l = cls key k l := List.filter_congr fun a ha => by rw [heq a ha]
    rw [hcls]
    exact h.classes k

variable [DecidableEq α]

/-- The log after `a` arrived (again). -/
def arrive (a : α) (log : List α) : List α := log.erase a ++ [a]

theorem nodup_arrive (hlog : log.Nodup) : (arrive a log).Nodup := by
  refine List.nodup_append.mpr ⟨hlog.erase a, List.nodup_singleton a, fun x hx y hy he => ?_⟩
  rw [he, List.mem_singleton.mp hy] at hx
  exact hlog.not_mem_erase hx

theorem sublist_arrive {c : List α} (hc : c.Sublist log) (ha : a ∉ c) :
    c.Sublist (log.erase a) := by
  have := hc.erase a
  rwa [List.erase_of_not_mem ha] at this

/-- The arrival of an element that is not queued here. -/
theorem Arrived.arrive (h : Arrived key log l) (ha : a ∉ l) : Arrived key (arrive a log) l :=
  ⟨h.sorted, h.nodup, fun k => (sublist_arrive (h.classes k) fun hc => ha (mem_cls.mp hc).1).trans
    (List.sublist_append_left ..)⟩

variable [Std.TransOrd κ]

/-- **A newcomer is queued as it arrives.** -/
theorem Arrived.enqueue (h : Arrived key log l) (ha : a ∉ l) :
    Arrived key (StableQueue.arrive a log) (enqueue key a l) := by
  refine ⟨sorted_enqueue h.sorted a, nodup_enqueue ha h.nodup, fun k => ?_⟩
  rw [cls_enqueue h.sorted]
  split
  · exact (sublist_arrive (h.classes k) fun hc => ha (mem_cls.mp hc).1).append (.refl _)
  · exact (h.arrive ha).classes k

omit [DecidableEq α] in
theorem isLE_key_trans (key : α → κ) (a b c : α) (hab : (compare (key a) (key b)).isLE = true)
    (hbc : (compare (key b) (key c)).isLE = true) : (compare (key a) (key c)).isLE = true :=
  Std.TransCmp.isLE_trans hab hbc

omit [DecidableEq α] in
theorem isLE_key_total (key : α → κ) (a b : α) :
    ((compare (key a) (key b)).isLE || (compare (key b) (key a)).isLE) = true := by
  have hswap : compare (key b) (key a) = (compare (key a) (key b)).swap :=
    Std.OrientedCmp.eq_swap
  rw [hswap]
  cases compare (key a) (key b) <;> rfl

omit [DecidableEq α] in
theorem sorted_mergeSort (key : α → κ) (l : List α) :
    Sorted key (l.mergeSort fun a b => (compare (key a) (key b)).isLE) :=
  List.pairwise_mergeSort (isLE_key_trans key) (isLE_key_total key) l

omit [DecidableEq α] in
/-- Sorting is stable: it leaves every class as it is. -/
theorem cls_mergeSort (key : α → κ) (l : List α) (k : κ) :
    cls key k (l.mergeSort fun a b => (compare (key a) (key b)).isLE) = cls key k l := by
  have hpw : (cls key k l).Pairwise fun a b => (compare (key a) (key b)).isLE = true := by
    refine List.pairwise_of_forall_mem_list fun a ha b hb => Ordering.isLE_of_eq_eq ?_
    exact Std.TransCmp.eq_trans (mem_cls.mp ha).2 (Std.OrientedCmp.eq_symm (mem_cls.mp hb).2)
  have hsub := (List.sublist_mergeSort (isLE_key_trans key) (isLE_key_total key) hpw
    List.filter_sublist).filter fun a => decide (compare (key a) k = .eq)
  rw [cls, List.filter_filter] at hsub
  simp only [Bool.and_self] at hsub
  exact (hsub.eq_of_length (((List.mergeSort_perm ..).filter _).length_eq.symm)).symm

/-- **Such a queue is the stable sort of its elements in order of arrival.** -/
theorem Arrived.eq_mergeSort (h : Arrived key log l) (hlog : log.Nodup) :
    l = (log.filter (· ∈ l)).mergeSort fun a b => (compare (key a) (key b)).isLE := by
  refine eq_of_classes h.sorted (sorted_mergeSort ..) fun k => ?_
  rw [cls_mergeSort]
  -- the class is part of the log, and nothing else of the log belongs to it
  have hsub := (h.classes k).filter fun a => decide (a ∈ l) && decide (compare (key a) k = .eq)
  have hself : (cls key k l).filter (fun a => decide (a ∈ l) && decide (compare (key a) k = .eq)) =
      cls key k l := by
    refine List.filter_eq_self.mpr fun a ha => ?_
    obtain ⟨hal, hak⟩ := mem_cls.mp ha
    rw [decide_eq_true hal, decide_eq_true hak]
    rfl
  have hlogcls : log.filter (fun a => decide (a ∈ l) && decide (compare (key a) k = .eq)) =
      cls key k (log.filter (· ∈ l)) := by
    rw [cls, List.filter_filter]
    simp only [Bool.and_comm]
  rw [hself, hlogcls] at hsub
  refine hsub.eq_of_length (List.Perm.length_eq ?_)
  refine (List.perm_ext_iff_of_nodup (h.nodup.sublist List.filter_sublist)
    (hlog.sublist (List.filter_sublist.trans List.filter_sublist))).mpr fun a => ?_
  constructor
  · exact fun ha => hsub.subset ha
  · intro ha
    obtain ⟨ha, hak⟩ := mem_cls.mp ha
    exact mem_cls.mpr ⟨of_decide_eq_true (List.mem_filter.mp ha).2, hak⟩

end Arrival

/-! ## One FIFO queue per key -/

section Levels

/-- All elements of the levels, best key first and in arrival order within a key. -/
def items (L : List (κ × List α)) : List α := L.flatMap Prod.snd

/-- Appends `a` to the queue at key `k`, opening a level for it if there is none. -/
def pushBack (k : κ) (a : α) : List (κ × List α) → List (κ × List α)
  | [] => [(k, [a])]
  | (k', q) :: rest =>
    match compare k k' with
    | .lt => (k, [a]) :: (k', q) :: rest
    | .eq => (k', q ++ [a]) :: rest
    | .gt => (k', q) :: pushBack k a rest

/-- Removes `a` from the queue at key `k`; a level left empty goes away. -/
def remove [DecidableEq α] (k : κ) (a : α) : List (κ × List α) → List (κ × List α)
  | [] => []
  | (k', q) :: rest =>
    match compare k k' with
    | .eq => if q.erase a = [] then rest else (k', q.erase a) :: rest
    | _ => (k', q) :: remove k a rest

/-- The levels represent a queue: keys strictly ascend, no level is empty, and
every element sits at a level of its own key. -/
structure Coherent (key : α → κ) (L : List (κ × List α)) : Prop where
  ascending : L.Pairwise fun x y => compare x.1 y.1 = .lt
  nonempty : ∀ x ∈ L, x.2 ≠ []
  keyed : ∀ x ∈ L, ∀ a ∈ x.2, compare (key a) x.1 = .eq

omit [Ord κ] in
@[simp] theorem items_nil : items ([] : List (κ × List α)) = [] := rfl

omit [Ord κ] in
@[simp] theorem items_cons (x : κ × List α) (L : List (κ × List α)) :
    items (x :: L) = x.2 ++ items L := rfl

omit [Ord κ] in
theorem mem_items {L : List (κ × List α)} {a : α} : a ∈ items L ↔ ∃ x ∈ L, a ∈ x.2 :=
  List.mem_flatMap

variable {key : α → κ} {L : List (κ × List α)}

theorem coherent_nil : Coherent key ([] : List (κ × List α)) :=
  ⟨List.Pairwise.nil, by simp, by simp⟩

theorem Coherent.tail {x : κ × List α} (h : Coherent key (x :: L)) : Coherent key L :=
  ⟨(List.pairwise_cons.mp h.ascending).2, fun y hy => h.nonempty y (List.mem_cons_of_mem _ hy),
    fun y hy => h.keyed y (List.mem_cons_of_mem _ hy)⟩

/-- A nonempty level goes in front of levels of larger keys. -/
theorem Coherent.cons {x : κ × List α} (h : Coherent key L)
    (hlt : ∀ y ∈ L, compare x.1 y.1 = .lt) (hne : x.2 ≠ [])
    (hkey : ∀ a ∈ x.2, compare (key a) x.1 = .eq) : Coherent key (x :: L) :=
  ⟨List.pairwise_cons.mpr ⟨hlt, h.ascending⟩, List.forall_mem_cons.mpr ⟨hne, h.nonempty⟩,
    List.forall_mem_cons.mpr ⟨hkey, h.keyed⟩⟩

theorem Coherent.items_eq_nil_iff (h : Coherent key L) : items L = [] ↔ L = [] := by
  constructor
  · intro hi
    cases L with
    | nil => rfl
    | cons x L =>
      rw [items_cons, List.append_eq_nil_iff] at hi
      exact absurd hi.1 (h.nonempty x (List.mem_cons_self ..))
  · rintro rfl
    rfl

/-- Coherence reads the keys of the elements present and no others. -/
theorem Coherent.congr {key' : α → κ} (h : Coherent key L)
    (heq : ∀ a ∈ items L, key' a = key a) : Coherent key' L :=
  ⟨h.ascending, h.nonempty, fun x hx a ha => by
    rw [heq a (mem_items.mpr ⟨x, hx, ha⟩)]
    exact h.keyed x hx a ha⟩

/-- Removing what is not there changes nothing. -/
theorem Coherent.remove_of_notMem [DecidableEq α] (h : Coherent key L) (k : κ) {a : α}
    (ha : a ∉ items L) : remove k a L = L := by
  induction L with
  | nil => rfl
  | cons x L ih =>
    obtain ⟨k', q⟩ := x
    rw [items_cons, List.mem_append, not_or] at ha
    have hq : q.erase a = q := List.erase_of_not_mem ha.1
    rw [remove, hq, if_neg (h.nonempty _ (List.mem_cons_self ..)), ih h.tail ha.2]
    split <;> rfl

variable [Std.TransOrd κ]

/-- Elements of later levels have larger keys than the first level's. -/
theorem Coherent.lt_of_mem_tail {x : κ × List α} (h : Coherent key (x :: L)) {a : α}
    (ha : a ∈ items L) : compare x.1 (key a) = .lt := by
  obtain ⟨y, hy, hay⟩ := mem_items.mp ha
  exact Std.TransCmp.lt_of_lt_of_eq ((List.pairwise_cons.mp h.ascending).1 y hy)
    (Std.OrientedCmp.eq_symm (h.keyed y (List.mem_cons_of_mem _ hy) a hay))

/-- **The elements of coherent levels form a sorted queue.** -/
theorem Coherent.sorted (h : Coherent key L) : Sorted key (items L) := by
  induction L with
  | nil => exact List.Pairwise.nil
  | cons x L ih =>
    refine List.pairwise_append.mpr ⟨?_, ih h.tail, ?_⟩
    · refine List.pairwise_of_forall_mem_list fun a ha b hb => ?_
      have hkey := h.keyed x (List.mem_cons_self ..)
      exact Ordering.isLE_of_eq_eq
        (Std.TransCmp.eq_trans (hkey a ha) (Std.OrientedCmp.eq_symm (hkey b hb)))
    · intro a ha b hb
      exact Ordering.isLE_of_eq_lt (Std.TransCmp.lt_of_eq_of_lt
        (h.keyed x (List.mem_cons_self ..) a ha) (h.lt_of_mem_tail hb))

omit [Std.TransOrd κ] in
theorem pushBack_fst_mem {k : κ} {a : α} {y : κ × List α} (hy : y ∈ pushBack k a L) :
    y.1 = k ∨ ∃ x ∈ L, x.1 = y.1 := by
  induction L with
  | nil =>
    rw [pushBack, List.mem_singleton] at hy
    exact Or.inl (by rw [hy])
  | cons x L ih =>
    rw [pushBack] at hy
    split at hy
    · rcases List.mem_cons.mp hy with rfl | hy
      · exact Or.inl rfl
      · exact Or.inr ⟨y, hy, rfl⟩
    · rcases List.mem_cons.mp hy with rfl | hy
      · exact Or.inr ⟨x, List.mem_cons_self .., rfl⟩
      · exact Or.inr ⟨y, List.mem_cons_of_mem _ hy, rfl⟩
    · rcases List.mem_cons.mp hy with rfl | hy
      · exact Or.inr ⟨_, List.mem_cons_self .., rfl⟩
      · rcases ih hy with h | ⟨z, hz, h⟩
        · exact Or.inl h
        · exact Or.inr ⟨z, List.mem_cons_of_mem _ hz, h⟩

omit [Std.TransOrd κ] in
/-- A removal never opens a level. -/
theorem remove_fst_mem [DecidableEq α] {k : κ} {a : α} {y : κ × List α}
    (hy : y ∈ remove k a L) : ∃ x ∈ L, x.1 = y.1 := by
  induction L with
  | nil => cases hy
  | cons x L ih =>
    rw [remove] at hy
    split at hy
    · split at hy
      · exact ⟨y, List.mem_cons_of_mem _ hy, rfl⟩
      · rcases List.mem_cons.mp hy with rfl | hy
        · exact ⟨x, List.mem_cons_self .., rfl⟩
        · exact ⟨y, List.mem_cons_of_mem _ hy, rfl⟩
    · rcases List.mem_cons.mp hy with rfl | hy
      · exact ⟨_, List.mem_cons_self .., rfl⟩
      · obtain ⟨z, hz, hk⟩ := ih hy
        exact ⟨z, List.mem_cons_of_mem _ hz, hk⟩

/-- **Pushing into the levels is enqueuing**, and keeps them coherent. -/
theorem Coherent.pushBack (h : Coherent key L) (a : α) :
    Coherent key (pushBack (key a) a L) ∧
      items (StableQueue.pushBack (key a) a L) = enqueue key a (items L) := by
  induction L with
  | nil => exact ⟨coherent_nil.cons (by simp) (by simp) (by simp), rfl⟩
  | cons x L ih =>
    obtain ⟨k, q⟩ := x
    have hlt := (List.pairwise_cons.mp h.ascending).1
    have hq : ∀ b ∈ q, compare (key b) k = .eq := h.keyed _ (List.mem_cons_self ..)
    have hqne : q ≠ [] := h.nonempty _ (List.mem_cons_self ..)
    -- within the level `a` compares as with the level's key
    have hcong : ∀ b ∈ q, compare (key a) (key b) = compare (key a) k := fun b hb =>
      Std.TransCmp.congr_right (hq b hb)
    rw [StableQueue.pushBack]
    cases hc : compare (key a) k with
    | lt =>
      refine ⟨h.cons ?_ (by simp) (by simp), ?_⟩
      · exact List.forall_mem_cons.mpr ⟨hc, fun y hy => Std.TransCmp.lt_trans hc (hlt y hy)⟩
      · show a :: (q ++ items L) = enqueue key a (q ++ items L)
        refine (enqueue_of_forall_lt fun b hb => ?_).symm
        rcases List.mem_append.mp hb with hb | hb
        · rw [hcong b hb, hc]
        · exact Std.TransCmp.lt_trans hc (h.lt_of_mem_tail hb)
    | eq =>
      refine ⟨h.tail.cons hlt (by simp) ?_, ?_⟩
      · intro b hb
        rcases List.mem_append.mp hb with hb | hb
        · exact hq b hb
        · rw [List.mem_singleton.mp hb]
          exact hc
      · have hpass := enqueue_append_of_not_lt (r := items L) fun b hb =>
          show ¬ compare (key a) (key b) = .lt by rw [hcong b hb, hc]; simp
        rw [items_cons, items_cons, hpass, List.append_assoc,
          enqueue_of_forall_lt fun b hb => Std.TransCmp.lt_of_eq_of_lt hc (h.lt_of_mem_tail hb)]
        rfl
    | gt =>
      obtain ⟨hco, hit⟩ := ih h.tail
      refine ⟨hco.cons ?_ hqne hq, ?_⟩
      · intro y hy
        rcases pushBack_fst_mem hy with hk | ⟨z, hz, hk⟩
        · rw [hk]
          exact Std.OrientedCmp.lt_of_gt hc
        · rw [← hk]
          exact hlt z hz
      · have hpass := enqueue_append_of_not_lt (r := items L) fun b hb =>
          show ¬ compare (key a) (key b) = .lt by rw [hcong b hb, hc]; simp
        rw [items_cons, items_cons, hit, hpass]

/-- **Removing from the levels is erasing**, and keeps them coherent. -/
theorem Coherent.remove [DecidableEq α] (h : Coherent key L) (a : α) :
    Coherent key (remove (key a) a L) ∧
      items (StableQueue.remove (key a) a L) = (items L).erase a := by
  induction L with
  | nil => exact ⟨coherent_nil, rfl⟩
  | cons x L ih =>
    obtain ⟨k, q⟩ := x
    have hlt := (List.pairwise_cons.mp h.ascending).1
    have hq : ∀ b ∈ q, compare (key b) k = .eq := h.keyed _ (List.mem_cons_self ..)
    rw [StableQueue.remove]
    by_cases hc : compare (key a) k = .eq
    · -- only this level can hold `a`
      have htail : a ∉ items L := fun ha => by
        have := h.lt_of_mem_tail ha
        rw [Std.OrientedCmp.eq_symm hc] at this
        cases this
      have hitems : (items ((k, q) :: L)).erase a = q.erase a ++ items L := by
        rw [items_cons]
        by_cases haq : a ∈ q
        · rw [List.erase_append_left _ haq]
        · rw [List.erase_append_right _ haq, List.erase_of_not_mem htail, List.erase_of_not_mem haq]
      rw [hc, hitems]
      dsimp only
      split
      · rename_i hempty
        exact ⟨h.tail, by rw [hempty]; rfl⟩
      · rename_i hne
        exact ⟨h.tail.cons hlt hne fun b hb => hq b (List.mem_of_mem_erase hb), rfl⟩
    · have haq : a ∉ q := fun ha => hc (hq a ha)
      have hskip : (match compare (key a) k with
          | .eq => if q.erase a = [] then L else (k, q.erase a) :: L
          | _ => (k, q) :: StableQueue.remove (key a) a L) =
          (k, q) :: StableQueue.remove (key a) a L := by
        split
        · exact absurd ‹_› hc
        · rfl
      obtain ⟨hco, hit⟩ := ih h.tail
      rw [hskip]
      refine ⟨hco.cons ?_ (h.nonempty _ (List.mem_cons_self ..)) hq, ?_⟩
      · intro y hy
        obtain ⟨z, hz, hk⟩ := remove_fst_mem hy
        rw [← hk]
        exact hlt z hz
      · rw [items_cons, items_cons, hit, List.erase_append_right _ haq]

end Levels

end StableQueue
