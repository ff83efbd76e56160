import Stubsmith.Proofs.NodeShape

namespace Stubsmith.Syntax

/-- A node with a place among its children. -/
structure Layer where
  root : Node
  before : List Tree
  after : List Tree

namespace Layer

def fill (l : Layer) (t : Tree) : Tree :=
  .node l.root (l.before ++ t :: l.after)

/-- What a name at the place stands for. -/
def reading? (l : Layer) (t : Tree) : Option ImportKind :=
  Syntax.reading? l.root.kind (l.before ++ t :: l.after) l.before.length t

/-- Whether what stands at the place is written as it is: in a closure, a text or another node that
is not looked into, behind the arrow of a member, or as a name behind two colons. -/
def hides (l : Layer) (t : Tree) : Bool :=
  isOpaqueKind l.root.kind || (isMemberKind l.root.kind && hasField "name" t) ||
    (isScopeKind l.root.kind && !l.before.isEmpty && isNameKind t.kind)

end Layer

/-- A tree put into layers, of which the outermost comes first. -/
def wrap (ls : List Layer) (t : Tree) : Tree :=
  ls.foldr Layer.fill t

/-- Whether one of the layers around a place hides what stands in it. -/
def hidden : List Layer → Tree → Bool
  | [], _ => false
  | l :: ls, t => l.hides (wrap ls t) || hidden ls t

/-- In a shaped node a child that is more than a name is read unless the layer hides it. -/
theorem Layer.reading?_eq_none_iff {l : Layer} {t : Tree}
    (hl : Shaped l.root (l.before ++ t :: l.after)) (ht : t.every isShaped)
    (hplain : isPlainName t = false) : l.reading? t = none ↔ l.hides t := by
  obtain ⟨hnamed, hcomment⟩ := named_of_not_plain ht hplain
  obtain ⟨r, before, after⟩ := l
  simp only [Layer.reading?, Layer.hides]
  by_cases hskipped : isOpaqueKind r.kind
  · simp [Syntax.reading?, hskipped]
  by_cases hmember : isMemberKind r.kind
  · have hscope : isScopeKind r.kind = false := isScopeKind_of_isMemberKind hmember
    rw [reading?_member hmember (hl.member hmember) hnamed hcomment]
    cases hasField "name" t <;> simp [hskipped, hmember, hscope]
  by_cases hscope : isScopeKind r.kind
  · rw [reading?_scope hscope (hl.scope hscope) hnamed]
    cases before <;> cases isNameKind t.kind <;> simp [hskipped, hmember, hscope]
  · rw [Bool.not_eq_true] at hskipped hmember hscope
    have hread := reading?_ne_none hl ht hplain hskipped hmember hscope
    simp [hread, hskipped, hmember, hscope]

/-- What is read and holds more than a name is no name itself. -/
theorem isNameKind_of_read {l : Layer} {t : Tree} (hl : Shaped l.root (l.before ++ t :: l.after))
    (hplain : isPlainName t = false) (hread : l.hides t = false) : isNameKind t.kind = false := by
  cases hscope : isScopeKind l.root.kind with
  | false => exact hl.not_name hscope hplain
  | true =>
    rw [Bool.eq_false_iff]
    intro hname
    have hempty : l.before = [] := by
      rw [Layer.hides, Bool.or_eq_false_iff] at hread
      simpa [hscope, hname] using hread.2
    have hfirst := hl.plain t (by simp [hscope, hempty]) hname
    rw [hplain] at hfirst
    exact absurd hfirst (by decide)

section

variable {l : Layer} {ls : List Layer} {t : Tree} {p : Node → List Tree → Bool}

theorem wrap_cons : wrap (l :: ls) t = l.fill (wrap ls t) :=
  rfl

theorem every_fill (h : (l.fill t).every p) : p l.root (l.before ++ t :: l.after) ∧ t.every p := by
  obtain ⟨hroot, hbelow⟩ := Tree.every_node.1 h
  exact ⟨hroot, hbelow t (by simp)⟩

theorem every_wrap (h : (wrap ls t).every p) : t.every p := by
  induction ls with
  | nil => exact h
  | cons l ls ih => exact ih (every_fill h).2

theorem isPlainName_wrap (h : isPlainName t = false) : isPlainName (wrap ls t) = false := by
  rw [Bool.eq_false_iff] at h ⊢
  exact fun hwhole => h (every_wrap hwhole)

theorem inOrder_append {start stop : Nat} {before after : List Tree} :
    inOrder stop start (before ++ t :: after) ↔
      inOrder t.root.start start before ∧ inOrder stop t.root.stop after := by
  induction before generalizing start with
  | nil => simp [inOrder]
  | cons b before ih => simp [inOrder, ih, and_assoc]

end

section

variable {source : String} {scope : Scope} {l : Layer} {ls : List Layer} {t : Tree}

theorem referencesBelow_append (kind : String) (siblings : List Tree) (place : Nat)
    (xs ys : List Tree) :
    referencesBelow source scope kind siblings place (xs ++ ys) =
      referencesBelow source scope kind siblings place xs ++
        referencesBelow source scope kind siblings (place + xs.length) ys := by
  induction xs generalizing place with
  | nil => simp [referencesBelow]
  | cons x xs ih =>
    rw [List.cons_append, referencesBelow, referencesBelow, ih, List.append_assoc, List.length_cons,
      Nat.add_assoc, Nat.add_comm 1]

/-- What is in a ranged layer stands between its ends, with trees in order on both sides. -/
theorem fill_ranged (h : (l.fill t).every (isRanged source)) :
    t.every (isRanged source) ∧
      (Tree.everyAll (isRanged source) l.before ∧ inOrder t.root.start l.root.start l.before) ∧
      (Tree.everyAll (isRanged source) l.after ∧ inOrder l.root.stop t.root.stop l.after) := by
  obtain ⟨hroot, hbelow⟩ := Tree.every_node.1 h
  obtain ⟨-, -, -, horder, -⟩ := isRanged_iff.1 hroot
  obtain ⟨hbefore, hafter⟩ := inOrder_append.1 horder
  refine ⟨hbelow t (by simp), ⟨Tree.everyAll_iff.2 ?_, hbefore⟩, Tree.everyAll_iff.2 ?_, hafter⟩
  · exact fun c hc => hbelow c (by simp [hc])
  · exact fun c hc => hbelow c (by simp [hc])

theorem fill_inside (h : (l.fill t).every (isRanged source)) :
    l.root.start ≤ t.root.start ∧ t.root.stop ≤ l.root.stop := by
  obtain ⟨-, ⟨hbefore, hstart⟩, hafter, hstop⟩ := fill_ranged h
  exact ⟨inOrder_le hbefore hstart, inOrder_le hafter hstop⟩

theorem wrap_ranged (h : (wrap ls t).every (isRanged source)) :
    (wrap ls t).root.start ≤ t.root.start ∧ t.root.stop ≤ (wrap ls t).root.stop := by
  induction ls with
  | nil => exact ⟨Nat.le_refl _, Nat.le_refl _⟩
  | cons l ls ih =>
    obtain ⟨hstart, hstop⟩ := fill_inside h
    obtain ⟨hfirst, hlast⟩ := ih (fill_ranged h).1
    exact ⟨hstart.trans hfirst, hlast.trans hstop⟩

/-- The references of a layer with something in it: those before the place, those of what is there
if it is read, and those behind. -/
theorem references_fill (scope : Scope) (h : (l.fill t).every (isRanged source))
    (hkind : isNameKind l.root.kind = false) :
    ∃ xs zs, (∀ reading, references source scope reading (l.fill t) =
        xs ++ ((l.reading? t).elim [] (references source scope · t) ++ zs)) ∧
      Follow source t.root.start l.root.start xs ∧ Follow source l.root.stop t.root.stop zs := by
  obtain ⟨-, ⟨hbefore, hstart⟩, hafter, hstop⟩ := fill_ranged h
  have hxs := follow_referencesBelow source scope l.root.kind (l.before ++ t :: l.after) 0 l.before
    l.root.start t.root.start hbefore hstart
  have hzs := follow_referencesBelow source scope l.root.kind (l.before ++ t :: l.after)
    (l.before.length + 1) l.after t.root.stop l.root.stop hafter hstop
  refine ⟨_, _, fun reading => ?_, hxs, hzs⟩
  rw [Layer.fill, references, hkind, if_neg Bool.false_ne_true, referencesBelow_append,
    referencesBelow, Nat.zero_add, Layer.reading?]
  cases Syntax.reading? l.root.kind (l.before ++ t :: l.after) l.before.length t <;> rfl

theorem references_eq_of_not_name (h : isNameKind t.kind = false) (a b : ImportKind) :
    references source scope a t = references source scope b t := by
  obtain ⟨r, cs⟩ := t
  have hkind : isNameKind r.kind = false := h
  rw [references, references, hkind]
  rfl

/-- The references of a tree around a place: those before it, those of what is there unless it is
hidden, and those behind. -/
theorem references_wrap (scope : Scope) (hranged : (wrap ls t).every (isRanged source))
    (hshaped : (wrap ls t).every isShaped)
    (hkind : isNameKind (wrap ls t).kind = false) (hplain : isPlainName t = false) :
    ∃ xs zs, (∀ reading, references source scope reading (wrap ls t) =
        xs ++ ((if hidden ls t then [] else references source scope .constant t) ++ zs)) ∧
      Follow source t.root.start (wrap ls t).root.start xs ∧
      Follow source (wrap ls t).root.stop t.root.stop zs := by
  -- from the outermost layer inwards, up to the first that hides what stands in it
  induction ls with
  | nil =>
    refine ⟨[], [], fun reading => ?_, Nat.le_refl _, Nat.le_refl _⟩
    rw [List.append_nil]
    exact references_eq_of_not_name hkind reading .constant
  | cons l ls ih =>
    rw [wrap_cons] at hranged hshaped hkind ⊢
    obtain ⟨xs, zs, hrefs, hxs, hzs⟩ := references_fill scope hranged hkind
    obtain ⟨-, hinner⟩ := every_fill hranged
    obtain ⟨hroot, hbelow⟩ := every_fill hshaped
    have hroot : Shaped l.root (l.before ++ wrap ls t :: l.after) := of_decide_eq_true hroot
    have hread := Layer.reading?_eq_none_iff hroot hbelow (isPlainName_wrap hplain)
    cases hhides : l.hides (wrap ls t) with
    | true =>
      obtain ⟨hstart, hstop⟩ := wrap_ranged hinner
      refine ⟨xs, zs, fun reading => ?_, ?_, hzs.of_le hstop⟩
      · have hhere : hidden (l :: ls) t = true := by rw [hidden, hhides, Bool.true_or]
        have hnone : l.reading? (wrap ls t) = none := hread.2 hhides
        exact (hrefs reading).trans (by rw [hnone, hhere]; rfl)
      · exact hxs.le_right hstart
    | false =>
      have hname := isNameKind_of_read hroot (isPlainName_wrap hplain) hhides
      obtain ⟨xs', zs', hrefs', hxs', hzs'⟩ := ih hinner hbelow hname
      obtain ⟨inner, hsome⟩ : ∃ inner, l.reading? (wrap ls t) = some inner := by
        rw [← Option.isSome_iff_exists, ← Option.ne_none_iff_isSome, ne_eq, hread, hhides]
        decide
      refine ⟨xs ++ xs', zs' ++ zs, fun reading => ?_, hxs.append hxs', hzs'.append hzs⟩
      have hhere : hidden (l :: ls) t = hidden ls t := by rw [hidden, hhides, Bool.false_or]
      refine (hrefs reading).trans ?_
      rw [hsome, Option.elim_some, hrefs', hhere]
      simp only [List.append_assoc]

/-- The references of a tree around a place in a layer that is no part of a name. -/
theorem references_wrap_fill {n : Tree} (scope : Scope) (h : WellFormed source (wrap ls (l.fill n)))
    (hl : isNamePart l.root.kind = false) :
    ∃ xs zs, references source scope .constant (wrap ls (l.fill n)) =
        xs ++ ((if hidden ls (l.fill n) then none else l.reading? n).elim []
          (references source scope · n) ++ zs) ∧
      Follow source n.root.start (wrap ls (l.fill n)).root.start xs ∧
      Follow source (wrap ls (l.fill n)).root.stop n.root.stop zs := by
  -- a name around the place would hold more than parts of a name, which is so behind colons only
  have hplain : isPlainName (l.fill n) = false := by
    simp [isPlainName, Layer.fill, Tree.every, hl]
  have hkind : isNameKind (wrap ls (l.fill n)).kind = false := by
    rw [Bool.eq_false_iff]
    intro hname
    have hwhole := h.plain hname
    rw [isPlainName_wrap hplain] at hwhole
    exact absurd hwhole (by decide)
  have hlkind : isNameKind l.root.kind = false := by
    rw [isNamePart, Bool.or_eq_false_iff] at hl
    exact hl.1
  have hranged : (l.fill n).every (isRanged source) := every_wrap h.ranged
  obtain ⟨xs, zs, hrefs, hxs, hzs⟩ := references_wrap scope h.ranged h.shaped hkind hplain
  cases hhidden : hidden ls (l.fill n) with
  | true =>
    obtain ⟨hstart, hstop⟩ := fill_inside hranged
    refine ⟨xs, zs, ?_, ?_, hzs.of_le hstop⟩
    · rw [hrefs, hhidden]
      rfl
    · exact hxs.le_right hstart
  | false =>
    obtain ⟨xs', zs', hrefs', hxs', hzs'⟩ := references_fill scope hranged hlkind
    refine ⟨xs ++ xs', zs' ++ zs, ?_, hxs.append hxs', hzs'.append hzs⟩
    rw [hrefs, hhidden, if_neg Bool.false_ne_true, hrefs', if_neg Bool.false_ne_true]
    simp only [List.append_assoc]

theorem references_name {n : Tree} (hn : isNameKind n.kind) (reading : ImportKind) :
    references source scope reading n =
      [⟨n.root.start, n.root.stop, resolveAs scope reading (n.text source)⟩] := by
  obtain ⟨r, cs⟩ := n
  have hkind : isNameKind r.kind := hn
  rw [references, if_pos hkind]
  rfl

theorem splice_name {n : Tree} (h : n.every (isRanged source)) (hn : isNameKind n.kind)
    (reading : Option ImportKind) :
    splice source n.root.stop n.root.start (reading.elim [] (references source scope · n)) =
      reading.elim (n.text source) (resolveAs scope · (n.text source)) := by
  obtain ⟨-, hstart, hstop⟩ := Tree.root_ranged h
  cases reading with
  | none => rfl
  | some reading =>
    have hfollow := follow_references source scope reading n h
    rw [references_name hn] at hfollow
    rw [Option.elim_some, Option.elim_some, references_name hn, splice_cons hfollow, splice,
      Text.slice_self hstart, Text.slice_self hstop, String.empty_append, String.append_empty]

/-- A name in a layer is rendered to what the layer reads it as, and stays where it is hidden or not
read. Around it stands what is rendered before and behind it. -/
theorem render_name {n : Tree} (scope : Scope) (h : WellFormed source (wrap ls (l.fill n)))
    (hl : isNamePart l.root.kind = false) (hn : isNameKind n.kind) :
    let t := wrap ls (l.fill n)
    render source scope t =
      renderBetween source scope t t.root.start n.root.start ++
        (if hidden ls (l.fill n) then none else l.reading? n).elim (n.text source)
          (resolveAs scope · (n.text source)) ++
        renderBetween source scope t n.root.stop t.root.stop := by
  intro t
  have hranged : n.every (isRanged source) := (every_fill (every_wrap h.ranged)).2
  obtain ⟨hle, hstart, hstop⟩ := Tree.root_ranged hranged
  obtain ⟨xs, zs, hrefs, hxs, hzs⟩ := references_wrap_fill scope h hl
  rw [← splice_name hranged hn]
  refine render_eq h.ranged hrefs hxs ?_ hzs hstart hstop
  cases if hidden ls (l.fill n) then none else l.reading? n with
  | none => exact hle
  | some reading => exact follow_references source scope reading n hranged

end

end Stubsmith.Syntax
