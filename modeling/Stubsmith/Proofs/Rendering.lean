import Mathlib.Data.List.Basic
import Stubsmith.Proofs.Slices
import Stubsmith.Syntax.Reference

namespace Stubsmith.Syntax

namespace Tree

mutual

/-- Whether something holds of all nodes with their children. -/
def every (p : Node → List Tree → Bool) : Tree → Bool
  | node r cs => p r cs && everyAll p cs

def everyAll (p : Node → List Tree → Bool) : List Tree → Bool
  | [] => true
  | t :: ts => every p t && everyAll p ts

end

variable {p : Node → List Tree → Bool} {r : Node} {cs : List Tree}

theorem everyAll_iff {ts : List Tree} : everyAll p ts ↔ ∀ t ∈ ts, t.every p := by
  induction ts with
  | nil => simp [everyAll]
  | cons t ts ih => simp [everyAll, ih]

theorem every_node : (node r cs).every p ↔ p r cs ∧ ∀ c ∈ cs, c.every p := by
  rw [every, Bool.and_eq_true, everyAll_iff]

end Tree

/-- Whether some trees stand one behind the other between two offsets. -/
def inOrder (stop : Nat) : Nat → List Tree → Bool
  | start, [] => start ≤ stop
  | start, t :: ts => start ≤ t.root.start && inOrder stop t.root.stop ts

/-- Whether a node begins and ends between characters and holds its children one behind the other.
No name is empty. -/
def isRanged (source : String) (r : Node) (cs : List Tree) : Bool :=
  r.start ≤ r.stop && Text.isBoundary source r.start && Text.isBoundary source r.stop &&
    inOrder r.stop r.start cs && (!isNameKind r.kind || r.start < r.stop)

theorem isRanged_iff {source : String} {r : Node} {cs : List Tree} :
    isRanged source r cs ↔
      r.start ≤ r.stop ∧ Text.isBoundary source r.start ∧ Text.isBoundary source r.stop ∧
        inOrder r.stop r.start cs ∧ (isNameKind r.kind → r.start < r.stop) := by
  simp only [isRanged, Bool.and_eq_true, Bool.or_eq_true, Bool.not_eq_true', decide_eq_true_eq,
    and_assoc]
  cases isNameKind r.kind <;> simp

theorem Tree.root_ranged {source : String} {t : Tree} (h : t.every (isRanged source)) :
    t.root.start ≤ t.root.stop ∧ Text.isBoundary source t.root.start ∧
      Text.isBoundary source t.root.stop := by
  obtain ⟨r, cs⟩ := t
  obtain ⟨hle, hstart, hstop, -⟩ := isRanged_iff.1 (Tree.every_node.1 h).1
  exact ⟨hle, hstart, hstop⟩

theorem inOrder_le {source : String} {start stop : Nat} {ts : List Tree}
    (h : Tree.everyAll (isRanged source) ts) (horder : inOrder stop start ts) : start ≤ stop := by
  induction ts generalizing start with
  | nil => exact of_decide_eq_true horder
  | cons t ts ih =>
    rw [Tree.everyAll, Bool.and_eq_true] at h
    rw [inOrder, Bool.and_eq_true, decide_eq_true_eq] at horder
    exact horder.1.trans ((Tree.root_ranged h.1).1.trans (ih h.2 horder.2))

/-- References that stand one behind the other between two offsets. -/
def Follow (source : String) (stop : Nat) : Nat → List Reference → Prop
  | start, [] => start ≤ stop
  | start, ref :: refs =>
    start ≤ ref.start ∧ ref.start < ref.stop ∧ Text.isBoundary source ref.start ∧
      Text.isBoundary source ref.stop ∧ Follow source stop ref.stop refs

namespace Follow

variable {source : String} {start mid stop : Nat} {xs ys refs : List Reference}

theorem le (h : Follow source stop start refs) : start ≤ stop := by
  induction refs generalizing start with
  | nil => exact h
  | cons ref refs ih =>
    obtain ⟨hle, hlt, -, -, hrest⟩ := h
    exact hle.trans (hlt.le.trans (ih hrest))

theorem of_le (hle : start ≤ mid) (h : Follow source stop mid refs) :
    Follow source stop start refs := by
  cases refs with
  | nil => exact hle.trans h
  | cons ref refs => exact ⟨hle.trans h.1, h.2⟩

theorem append (hxs : Follow source mid start xs) (hys : Follow source stop mid ys) :
    Follow source stop start (xs ++ ys) := by
  induction xs generalizing start with
  | nil => exact hys.of_le hxs
  | cons x xs ih =>
    obtain ⟨hle, hlt, hstart, hstop, hrest⟩ := hxs
    exact ⟨hle, hlt, hstart, hstop, ih hrest⟩

theorem le_right (h : Follow source mid start refs) (hle : mid ≤ stop) :
    Follow source stop start refs := by
  have hnone : Follow source stop mid [] := hle
  have hwhole := h.append hnone
  rwa [List.append_nil] at hwhole

theorem mem (h : Follow source stop start refs) {ref : Reference} (hmem : ref ∈ refs) :
    start ≤ ref.start ∧ ref.start < ref.stop ∧ ref.stop ≤ stop := by
  induction refs generalizing start with
  | nil => cases hmem
  | cons head refs ih =>
    obtain ⟨hle, hlt, -, -, hrest⟩ := h
    obtain rfl | hmem := List.mem_cons.1 hmem
    · exact ⟨hle, hlt, hrest.le⟩
    · obtain ⟨hstart, hne, hstop⟩ := ih hrest hmem
      exact ⟨hle.trans (hlt.le.trans hstart), hne, hstop⟩

theorem disjoint (h : Follow source stop start refs) :
    refs.Pairwise fun a b => a.stop ≤ b.start := by
  induction refs generalizing start with
  | nil => exact .nil
  | cons ref refs ih =>
    obtain ⟨-, -, -, -, hrest⟩ := h
    exact .cons (fun later hmem => (hrest.mem hmem).1) (ih hrest)

theorem pairwise (h : Follow source stop start refs) :
    refs.Pairwise fun a b => a.start ≤ b.start :=
  h.disjoint.imp_of_mem fun ha _ hle => (h.mem ha).2.1.le.trans hle

end Follow

section

variable {source : String} {start mid stop : Nat} {xs ys refs : List Reference}

theorem splice_cons {ref : Reference} (h : Follow source stop start (ref :: refs)) :
    splice source stop start (ref :: refs) =
      Text.slice source start ref.start ++ ref.resolved ++ splice source stop ref.stop refs := by
  rw [splice, if_neg (Nat.not_lt.2 h.1)]

/-- What is spliced falls apart between two references. -/
theorem splice_append (hxs : Follow source mid start xs) (hys : Follow source stop mid ys)
    (hstart : Text.isBoundary source start) (hmid : Text.isBoundary source mid)
    (hstop : Text.isBoundary source stop) :
    splice source stop start (xs ++ ys) =
      splice source mid start xs ++ splice source stop mid ys := by
  induction xs generalizing start with
  | nil =>
    cases ys with
    | nil => exact (Text.slice_append hstart hmid hstop hxs hys).symm
    | cons y ys =>
      have hwhole : Follow source stop start (y :: ys) := hys.of_le hxs
      have hgap := Text.slice_append hstart hmid hys.2.2.1 hxs hys.1
      rw [List.nil_append, splice_cons hwhole, splice_cons hys, splice, ← hgap]
      simp only [String.append_assoc]
  | cons x xs ih =>
    have hwhole := hxs.append hys
    obtain ⟨-, -, -, hboundary, hrest⟩ := id hxs
    rw [List.cons_append] at hwhole ⊢
    rw [splice_cons hwhole, splice_cons hxs, ih hrest hboundary]
    simp only [String.append_assoc]

end

section

variable (source : String) (scope : Scope)

mutual

/-- The references of a tree follow one another inside it. -/
theorem follow_references (reading : ImportKind) (t : Tree) (h : t.every (isRanged source)) :
    Follow source t.root.stop t.root.start (references source scope reading t) := by
  match t, h with
  | .node r cs, h =>
    rw [Tree.every, Bool.and_eq_true] at h
    obtain ⟨-, hstart, hstop, horder, hname⟩ := isRanged_iff.1 h.1
    unfold references
    split
    · next hkind => exact ⟨Nat.le_refl _, hname hkind, hstart, hstop, Nat.le_refl _⟩
    · exact follow_referencesBelow r.kind cs 0 cs r.start r.stop h.2 horder

theorem follow_referencesBelow (kind : String) (siblings : List Tree) (place : Nat)
    (cs : List Tree) (start stop : Nat) (h : Tree.everyAll (isRanged source) cs)
    (horder : inOrder stop start cs) :
    Follow source stop start (referencesBelow source scope kind siblings place cs) := by
  match cs, h, horder with
  | [], _, horder =>
    rw [inOrder, decide_eq_true_eq] at horder
    rwa [referencesBelow]
  | c :: cs, h, horder =>
    rw [Tree.everyAll, Bool.and_eq_true] at h
    rw [inOrder, Bool.and_eq_true, decide_eq_true_eq] at horder
    have hrest := follow_referencesBelow kind siblings (place + 1) cs c.root.stop stop h.2 horder.2
    rw [referencesBelow]
    split
    · next reading _ =>
      exact ((follow_references reading c h.1).of_le horder.1).append hrest
    · exact hrest.of_le (horder.1.trans (Tree.root_ranged h.1).1)

end

/-- What a fragment is rendered to between two offsets. -/
def renderBetween (t : Tree) (start stop : Nat) : String :=
  splice source stop start <|
    (sortedReferences source scope t).filter fun ref => start ≤ ref.start && ref.stop ≤ stop

variable {source scope}

theorem sortedReferences_eq {t : Tree} (h : t.every (isRanged source)) :
    sortedReferences source scope t = references source scope .constant t := by
  apply List.mergeSort_of_pairwise
  have hpairwise := (follow_references source scope .constant t h).pairwise
  exact hpairwise.imp fun hle => by simpa using hle

theorem filter_between {first start stop last : Nat} {xs ys zs : List Reference}
    (hxs : Follow source start first xs) (hys : Follow source stop start ys)
    (hzs : Follow source last stop zs) :
    ((xs ++ (ys ++ zs)).filter fun ref => start ≤ ref.start && ref.stop ≤ stop) = ys := by
  have hbefore : ∀ ref ∈ xs, ¬(start ≤ ref.start && ref.stop ≤ stop) := by
    intro ref hmem
    obtain ⟨-, hlt, hle⟩ := hxs.mem hmem
    rw [Bool.and_eq_true, decide_eq_true_eq, decide_eq_true_eq]
    omega
  have hinside : ∀ ref ∈ ys, (start ≤ ref.start && ref.stop ≤ stop) := by
    intro ref hmem
    obtain ⟨hle, -, hle'⟩ := hys.mem hmem
    rw [Bool.and_eq_true, decide_eq_true_eq, decide_eq_true_eq]
    exact ⟨hle, hle'⟩
  have hbehind : ∀ ref ∈ zs, ¬(start ≤ ref.start && ref.stop ≤ stop) := by
    intro ref hmem
    obtain ⟨hle, hlt, -⟩ := hzs.mem hmem
    rw [Bool.and_eq_true, decide_eq_true_eq, decide_eq_true_eq]
    omega
  rw [List.filter_append, List.filter_append, List.filter_eq_nil_iff.2 hbefore,
    List.filter_eq_self.2 hinside, List.filter_eq_nil_iff.2 hbehind, List.nil_append,
    List.append_nil]

/-- A fragment whose references fall in three parts is rendered part by part. -/
theorem render_eq {t : Tree} {start stop : Nat} {xs ys zs : List Reference}
    (ht : t.every (isRanged source))
    (hrefs : references source scope .constant t = xs ++ (ys ++ zs))
    (hxs : Follow source start t.root.start xs) (hys : Follow source stop start ys)
    (hzs : Follow source t.root.stop stop zs) (hstart : Text.isBoundary source start)
    (hstop : Text.isBoundary source stop) :
    render source scope t =
      renderBetween source scope t t.root.start start ++ splice source stop start ys ++
        renderBetween source scope t stop t.root.stop := by
  obtain ⟨-, hfirst, hlast⟩ := Tree.root_ranged ht
  have hbefore : renderBetween source scope t t.root.start start =
      splice source start t.root.start xs := by
    have hempty : Follow source t.root.start t.root.start [] := Nat.le_refl _
    rw [renderBetween, sortedReferences_eq ht, hrefs, ← List.nil_append (xs ++ (ys ++ zs)),
      filter_between hempty hxs (hys.append hzs)]
  have hbehind : renderBetween source scope t stop t.root.stop =
      splice source t.root.stop stop zs := by
    have hempty : Follow source t.root.stop t.root.stop [] := Nat.le_refl _
    have hsplit : xs ++ (ys ++ zs) = (xs ++ ys) ++ (zs ++ []) := by simp
    rw [renderBetween, sortedReferences_eq ht, hrefs, hsplit,
      filter_between (hxs.append hys) hzs hempty]
  rw [render, sortedReferences_eq ht, hrefs, hbefore, hbehind,
    splice_append hxs (hys.append hzs) hfirst hstart hlast, splice_append hys hzs hstart hstop hlast]
  simp only [String.append_assoc]

end

end Stubsmith.Syntax
