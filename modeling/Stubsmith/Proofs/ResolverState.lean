import Mathlib.Data.List.GetD
import Stubsmith.Hierarchy.Resolver

namespace Stubsmith

namespace Resolver

variable {s : Resolver} {n : Nat} {v w : Nat}

/-- The resolver has a place for the number of each of `n` slots. -/
structure Sized (n : Nat) (s : Resolver) : Prop where
  visitIndex : s.visitIndex.length = n
  lowLink : s.lowLink.length = n
  onStack : s.onStack.length = n

/-- The number of a slot, zero for one that was not visited. -/
def number (s : Resolver) (v : Nat) : Nat :=
  (s.index? v).getD 0

theorem getD_set {α : Type} {l : List α} {i j : Nat} {a b : α} (h : i < l.length) :
    (l.set i a).getD j b = if j = i then a else l.getD j b := by
  by_cases hj : j = i
  · subst hj
    simp [List.getD_eq_getElem?_getD, h]
  · simp [List.getD_eq_getElem?_getD, List.getElem?_set_ne (Ne.symm hj), hj]

theorem index?_enter (hs : s.Sized n) (hv : v < n) :
    (s.enter v).index? w = if w = v then some s.nextIndex else s.index? w :=
  getD_set (hs.visitIndex.symm ▸ hv)

theorem low_enter (hs : s.Sized n) (hv : v < n) :
    (s.enter v).low w = if w = v then s.nextIndex else s.low w :=
  getD_set (hs.lowLink.symm ▸ hv)

theorem isOnStack_enter (hs : s.Sized n) (hv : v < n) :
    (s.enter v).isOnStack w = if w = v then true else s.isOnStack w :=
  getD_set (hs.onStack.symm ▸ hv)

theorem Sized.enter (hs : s.Sized n) (v : Nat) : (s.enter v).Sized n :=
  ⟨by simp [Resolver.enter, hs.visitIndex], by simp [Resolver.enter, hs.lowLink],
    by simp [Resolver.enter, hs.onStack]⟩

theorem low_lower {m : Nat} (hs : s.Sized n) (hv : v < n) :
    (s.lower v m).low w = if w = v then min (s.low v) m else s.low w :=
  getD_set (hs.lowLink.symm ▸ hv)

theorem Sized.lower (hs : s.Sized n) (v m : Nat) : (s.lower v m).Sized n :=
  ⟨hs.visitIndex, by simp [Resolver.lower, hs.lowLink], hs.onStack⟩

/-- A stack is taken apart behind a slot that stands on it. -/
theorem popTo_append {above below : List Nat} (h : v ∉ above) :
    popTo v (above ++ v :: below) = (above ++ [v], below) := by
  induction above with
  | nil => simp [popTo]
  | cons m above ih =>
    simp only [List.mem_cons, not_or] at h
    simp [popTo, Ne.symm h.1, ih h.2]

theorem getD_foldl_set_false {members : List Nat} {l : List Bool}
    (h : ∀ m ∈ members, m < l.length) :
    (members.foldl (fun on m => on.set m false) l).getD w false =
      if w ∈ members then false else l.getD w false := by
  induction members generalizing l with
  | nil => simp
  | cons m members ih =>
    rw [List.foldl_cons, ih fun k hk => by simpa using h k (by simp [hk]),
      getD_set (h m (by simp))]
    by_cases hm : w = m <;> by_cases hw : w ∈ members <;> simp [hm, hw]

theorem length_foldl_set_false (members : List Nat) (l : List Bool) :
    (members.foldl (fun on m => on.set m false) l).length = l.length := by
  induction members generalizing l with
  | nil => rfl
  | cons m members ih => rw [List.foldl_cons, ih, List.length_set]

/-- What closing a slot does when it stands on the stack with `above` above it. -/
theorem close_eq {above below : List Nat} (h : s.stack = above ++ v :: below) (hv : v ∉ above) :
    s.close v =
      { s with
        stack := below
        onStack := (above ++ [v]).foldl (fun on member => on.set member false) s.onStack
        placement := ((above ++ [v]).mergeSort (· ≤ ·)).foldl .emit s.placement } := by
  rw [close, h, popTo_append hv]

end Resolver

end Stubsmith
