import Mathlib.Data.List.Basic

/-!
# Channels and epochs

A channel is a list, oldest item first.  A faulty line may drop an item, put a
copy behind it, or exchange neighbours.

Two channels in a row form a pipeline: items of the second are turned into
items of the first, in order.  An epoch is a property of items that is true
from some point of the pipeline on (`Epoch`).  It survives everything a line
without reordering can do, and once an item of the epoch has come out, the
whole pipeline belongs to it.
-/

namespace Channel

universe u v

section Faults

variable {α : Type u}

/-- Copy the item at position `i`, behind itself. -/
def copyAt (xs : List α) (i : Nat) : List α :=
  xs.take (i + 1) ++ xs.drop i

/-- Exchange the items at positions `i` and `i + 1`. -/
def swapAt (xs : List α) (i : Nat) : List α :=
  xs.take i ++ ((xs.drop i).take 2).reverse ++ xs.drop (i + 2)

theorem mem_of_mem_copyAt
    {xs : List α} {i : Nat} {x : α}
    (h : x ∈ copyAt xs i) :
    x ∈ xs := by
  rcases List.mem_append.mp h with h | h
  · exact List.mem_of_mem_take h
  · exact List.mem_of_mem_drop h

theorem mem_of_mem_swapAt
    {xs : List α} {i : Nat} {x : α}
    (h : x ∈ swapAt xs i) :
    x ∈ xs := by
  simp only [swapAt, List.mem_append, List.mem_reverse] at h
  rcases h with (h | h) | h
  · exact List.mem_of_mem_take h
  · exact List.mem_of_mem_drop (List.mem_of_mem_take h)
  · exact List.mem_of_mem_drop h

/-- A copy stands next to its original. -/
theorem copyAt_spec
    {xs : List α} {i : Nat} (h : i < xs.length) :
    ∃ ys x zs, xs = ys ++ x :: zs ∧ copyAt xs i = ys ++ x :: x :: zs := by
  refine ⟨xs.take i, xs[i], xs.drop (i + 1), ?_, ?_⟩
  · rw [← List.drop_eq_getElem_cons h, List.take_append_drop]
  · rw [copyAt, List.take_succ_eq_append_getElem h, List.drop_eq_getElem_cons h,
      List.append_assoc]
    rfl

end Faults

section Epochs

variable {α : Type u} {β : Type v}

/-- From some point on, everything in `front ++ back` belongs to the epoch. -/
def Epoch (newFront : α → Prop) (newBack : β → Prop) (front : List α) (back : List β) : Prop :=
  (front.map newFront ++ back.map newBack).Pairwise (fun a b => a → b)

variable {newFront : α → Prop} {newBack : β → Prop} {front : List α} {back : List β}

theorem epoch_iff :
    Epoch newFront newBack front back ↔
      front.Pairwise (fun a b => newFront a → newFront b) ∧
        back.Pairwise (fun a b => newBack a → newBack b) ∧
        ∀ a ∈ front, ∀ b ∈ back, newFront a → newBack b := by
  simp only [Epoch, List.pairwise_append, List.pairwise_map, List.forall_mem_map]

/-- An epoch that has not begun. -/
theorem Epoch.fresh
    (hfront : ∀ a ∈ front, ¬ newFront a) (hback : ∀ b ∈ back, ¬ newBack b) :
    Epoch newFront newBack front back :=
  epoch_iff.mpr
    ⟨List.pairwise_of_forall_mem_list fun a ha _ _ h => absurd h (hfront a ha),
      List.pairwise_of_forall_mem_list fun b hb _ _ h => absurd h (hback b hb),
      fun a ha _ _ h => absurd h (hfront a ha)⟩

/-- New items join at the end. -/
theorem Epoch.push
    (h : Epoch newFront newBack front back) {b : β} (hb : newBack b) :
    Epoch newFront newBack front (back ++ [b]) := by
  obtain ⟨hfront, hback, hcross⟩ := epoch_iff.mp h
  refine epoch_iff.mpr ⟨hfront, ?_, ?_⟩
  · refine List.pairwise_append.mpr ⟨hback, List.pairwise_singleton _ _, ?_⟩
    intro _ _ b' hb' _
    rwa [List.mem_singleton.mp hb']
  · intro a ha b' hb' hnew
    rcases List.mem_append.mp hb' with hb' | hb'
    · exact hcross a ha b' hb' hnew
    · rwa [List.mem_singleton.mp hb']

/-- The oldest item leaves. -/
theorem Epoch.pop
    {a : α} (h : Epoch newFront newBack (a :: front) back) :
    Epoch newFront newBack front back :=
  List.Pairwise.of_cons h

/-- After an item of the epoch has come out, everything left belongs to it. -/
theorem Epoch.after
    {a : α} (h : Epoch newFront newBack (a :: front) back) (ha : newFront a) :
    (∀ a' ∈ front, newFront a') ∧ ∀ b ∈ back, newBack b := by
  obtain ⟨hfront, _, hcross⟩ := epoch_iff.mp h
  exact ⟨fun a' ha' => (List.pairwise_cons.mp hfront).1 a' ha' ha,
    fun b hb => hcross a List.mem_cons_self b hb ha⟩

/-- An item of the front that belongs to the epoch has only its kind behind it. -/
theorem Epoch.back_of_mem
    (h : Epoch newFront newBack front back) {a : α} (ha : a ∈ front) (hnew : newFront a) :
    ∀ b ∈ back, newBack b :=
  fun b hb => (epoch_iff.mp h).2.2 a ha b hb hnew

/-- An item passes from the back to the front, where it turns into at most one item of its
kind. -/
theorem Epoch.turn
    {b : β} (h : Epoch newFront newBack front (b :: back)) {turned : List α}
    (hone : turned.length ≤ 1) (hkind : ∀ a ∈ turned, newFront a ↔ newBack b) :
    Epoch newFront newBack (front ++ turned) back := by
  match turned, hone with
  | [], _ =>
      rw [List.append_nil]
      refine List.Pairwise.sublist ?_ h
      rw [List.map_cons]
      exact List.Sublist.append_left (List.sublist_cons_self _ _) _
  | [a], _ =>
      have ha : newFront a = newBack b := propext (hkind a List.mem_cons_self)
      rw [Epoch, List.map_append, List.map_singleton, ha, List.append_assoc]
      exact h

theorem Epoch.loseFront
    (h : Epoch newFront newBack front back) (i : Nat) :
    Epoch newFront newBack (front.eraseIdx i) back :=
  List.Pairwise.sublist
    (List.Sublist.append_right ((List.eraseIdx_sublist front i).map _) _) h

theorem Epoch.loseBack
    (h : Epoch newFront newBack front back) (i : Nat) :
    Epoch newFront newBack front (back.eraseIdx i) :=
  List.Pairwise.sublist
    (List.Sublist.append_left ((List.eraseIdx_sublist back i).map _) _) h

theorem pairwise_copyAt
    {R : α → α → Prop} (hrefl : ∀ a, R a a)
    {xs : List α} {i : Nat} (hi : i < xs.length) (h : xs.Pairwise R) :
    (copyAt xs i).Pairwise R := by
  obtain ⟨ys, x, zs, hxs, hcopy⟩ := copyAt_spec hi
  rw [hxs, List.pairwise_append, List.pairwise_cons] at h
  obtain ⟨hys, ⟨hx, hzs⟩, hcross⟩ := h
  rw [hcopy, List.pairwise_append, List.pairwise_cons, List.pairwise_cons]
  refine ⟨hys, ⟨?_, hx, hzs⟩, ?_⟩
  · intro z hz
    rcases List.mem_cons.mp hz with rfl | hz
    · exact hrefl _
    · exact hx z hz
  · intro y hy z hz
    rcases List.mem_cons.mp hz with rfl | hz
    · exact hcross y hy _ List.mem_cons_self
    · exact hcross y hy z hz

theorem Epoch.copyFront
    (h : Epoch newFront newBack front back) {i : Nat} (hi : i < front.length) :
    Epoch newFront newBack (copyAt front i) back := by
  obtain ⟨hfront, hback, hcross⟩ := epoch_iff.mp h
  exact epoch_iff.mpr ⟨pairwise_copyAt (fun _ ha => ha) hi hfront, hback,
    fun a ha b hb => hcross a (mem_of_mem_copyAt ha) b hb⟩

theorem Epoch.copyBack
    (h : Epoch newFront newBack front back) {i : Nat} (hi : i < back.length) :
    Epoch newFront newBack front (copyAt back i) := by
  obtain ⟨hfront, hback, hcross⟩ := epoch_iff.mp h
  exact epoch_iff.mpr ⟨hfront, pairwise_copyAt (fun _ hb => hb) hi hback,
    fun a ha b hb => hcross a ha b (mem_of_mem_copyAt hb)⟩

/-- An item changes into one of the same kind. -/
theorem Epoch.set
    (h : Epoch newFront newBack front back) {i : Nat} {b b' : β} (hb : back[i]? = some b)
    (hkind : newBack b' ↔ newBack b) :
    Epoch newFront newBack front (back.set i b') := by
  obtain ⟨hi, rfl⟩ := List.getElem?_eq_some_iff.mp hb
  have hmap : (back.set i b').map newBack = back.map newBack := by
    rw [List.map_set, propext hkind]
    apply List.ext_getElem?
    intro j
    rw [List.getElem?_set]
    split
    · rename_i hij
      subst hij
      simp [hi]
    · rfl
  rw [Epoch, hmap]
  exact h

end Epochs

end Channel
