import Stubsmith.Files.FileSystem
import Stubsmith.Proofs.FileTree
import Mathlib.Logic.Relation

namespace Stubsmith.FileSystem

open Relation (ReflTransGen)

structure Route where
  links : Nat
  here : Location
  pieces : List String

/-- A piece that is looked up as a name. -/
structure IsName (piece : String) : Prop where
  nonempty : piece ≠ ""
  ne_dot : piece ≠ "."
  ne_dots : piece ≠ ".."
  short : piece.utf8ByteSize ≤ nameLimit

inductive Step (root : Entry) (throughLast : Bool) : Route → Route → Prop where
  | skip {n : Nat} {here : Location} {piece : String} {rest : List String}
      (h : piece = "" ∨ piece = ".") :
      Step root throughLast ⟨n, here, piece :: rest⟩ ⟨n, here, rest⟩
  | up {n : Nat} {here : Location} {rest : List String} :
      Step root throughLast ⟨n, here, ".." :: rest⟩ ⟨n, here.dropLast, rest⟩
  | down {n : Nat} {here : Location} {piece : String} {rest : List String} (hn : IsName piece)
      (hl : root.look (here ++ [piece]) = some .directory) :
      Step root throughLast ⟨n, here, piece :: rest⟩ ⟨n, here ++ [piece], rest⟩
  | link {n : Nat} {here : Location} {piece target : String} {rest : List String}
      (hn : IsName piece) (hl : root.look (here ++ [piece]) = some (.link target))
      (ht : target ≠ "") (hlast : isEnd rest = true → throughLast = true) :
      Step root throughLast ⟨n + 1, here, piece :: rest⟩
        ⟨n, if Path.isAbsolute target then [] else here, Path.pieces target ++ rest⟩

/-- Where a path stops. -/
inductive Stops (root : Entry) (throughLast : Bool) : Route → Spot → Prop where
  | here {n : Nat} {here : Location} {e : Entry} (h : root.get? here = some e) :
      Stops root throughLast ⟨n, here, []⟩ (.present here e)
  | file {n : Nat} {here : Location} {piece : String} {contents : ByteArray} (hn : IsName piece)
      (hl : root.look (here ++ [piece]) = some (.file contents)) :
      Stops root throughLast ⟨n, here, [piece]⟩ (.present (here ++ [piece]) (.file contents))
  | link {n : Nat} {here : Location} {piece target : String} {rest : List String}
      (hn : IsName piece) (hl : root.look (here ++ [piece]) = some (.link target))
      (he : isEnd rest = true) (hlast : throughLast = false) :
      Stops root throughLast ⟨n, here, piece :: rest⟩
        (.present (here ++ [piece]) (.link target))
  | vacant {n : Nat} {here : Location} {piece : String} {rest : List String} (hn : IsName piece)
      (hl : root.look (here ++ [piece]) = none) (he : isEnd rest = true) :
      Stops root throughLast ⟨n, here, piece :: rest⟩ (.vacant here piece !rest.isEmpty)

abbrev Steps (root : Entry) (throughLast : Bool) : Route → Route → Prop :=
  ReflTransGen (Step root throughLast)

/-- Where following the pieces leads. -/
def Route.spot (root : Entry) (throughLast : Bool) (r : Route) : Except IoError Spot :=
  followLinks root throughLast r.links r.here r.pieces

variable {root : Entry} {throughLast : Bool}

/-- What becomes of a link when so many may still be followed. -/
def onLink (root : Entry) (throughLast : Bool) (links : Nat) (here : Location) (target : String)
    (rest : List String) : Except IoError Spot :=
  match links with
  | 0 => .error .tooManyLinks
  | links + 1 =>
    if target = "" then .error .notFound
    else
      followLinks root throughLast links (if Path.isAbsolute target then [] else here)
        (Path.pieces target ++ rest)

theorem spot_eq_follow (n : Nat) (here : Location) (pieces : List String) :
    Route.spot root throughLast ⟨n, here, pieces⟩ =
      follow root (onLink root throughLast n) throughLast here pieces := by
  cases n <;> rfl

theorem spot_skip {piece : String} (h : piece = "" ∨ piece = ".") (n : Nat) (here : Location)
    (rest : List String) :
    Route.spot root throughLast ⟨n, here, piece :: rest⟩ =
      Route.spot root throughLast ⟨n, here, rest⟩ := by
  rcases h with rfl | rfl <;> simp [spot_eq_follow, follow]

theorem spot_up (n : Nat) (here : Location) (rest : List String) :
    Route.spot root throughLast ⟨n, here, ".." :: rest⟩ =
      Route.spot root throughLast ⟨n, here.dropLast, rest⟩ := by
  simp [spot_eq_follow, follow]

theorem spot_name {piece : String} (hn : IsName piece) (n : Nat) (here : Location)
    (rest : List String) :
    Route.spot root throughLast ⟨n, here, piece :: rest⟩ =
      match root.look (here ++ [piece]) with
      | none => if isEnd rest then .ok (.vacant here piece !rest.isEmpty) else .error .notFound
      | some .directory => Route.spot root throughLast ⟨n, here ++ [piece], rest⟩
      | some (.link target) =>
        if isEnd rest && !throughLast then .ok (.present (here ++ [piece]) (.link target))
        else onLink root throughLast n here target rest
      | some (.file contents) =>
        if rest.isEmpty then .ok (.present (here ++ [piece]) (.file contents))
        else .error .notDirectory := by
  have hs : ¬ nameLimit < piece.utf8ByteSize := Nat.not_lt.mpr hn.short
  simp only [spot_eq_follow, follow, hn.nonempty, hn.ne_dot, hn.ne_dots, hs, decide_false,
    Bool.or_self, Bool.false_eq_true, if_false, Entry.look]
  cases root.get? (here ++ [piece]) with
  | none => rfl
  | some e => cases e <;> rfl

/-- A piece that is neither skipped nor leads up is a name, or too long to be one. -/
theorem isName_or (piece : String) :
    (piece = "" ∨ piece = ".") ∨ piece = ".." ∨ IsName piece ∨
      ∀ n here rest, Route.spot root throughLast ⟨n, here, piece :: rest⟩ = .error .nameTooLong := by
  by_cases hskip : piece = "" ∨ piece = "."
  · exact .inl hskip
  · by_cases hup : piece = ".."
    · exact .inr (.inl hup)
    · have hskip' := not_or.mp hskip
      by_cases hs : nameLimit < piece.utf8ByteSize
      · refine .inr (.inr (.inr fun n here rest => ?_))
        simp [spot_eq_follow, follow, hskip', hup, hs]
      · exact .inr (.inr (.inl ⟨hskip'.1, hskip'.2, hup, Nat.not_lt.mp hs⟩))

theorem Step.spot_eq {r r' : Route} (h : Step root throughLast r r') :
    r.spot root throughLast = r'.spot root throughLast := by
  cases h with
  | skip h => exact spot_skip h ..
  | up => exact spot_up ..
  | down hn hl => rw [spot_name hn, hl]
  | @link n here piece target rest hn hl ht hlast =>
    have hthrough : (isEnd rest && !throughLast) = false := by
      cases he : isEnd rest <;> simp_all
    rw [spot_name hn, hl]
    simp [hthrough, onLink, ht, Route.spot]

theorem spot_eq_of_steps {r r' : Route} (h : Steps root throughLast r r') :
    r.spot root throughLast = r'.spot root throughLast := by
  induction h with
  | refl => rfl
  | tail _ hstep ih => rw [ih, hstep.spot_eq]

theorem Stops.spot_eq {r : Route} {spot : Spot} (h : Stops root throughLast r spot) :
    r.spot root throughLast = .ok spot := by
  cases h with
  | here h => simp [spot_eq_follow, follow, h]
  | file hn hl => simp [spot_name hn, hl]
  | link hn hl he hlast => simp [spot_name hn, hl, he, hlast]
  | vacant hn hl he => simp [spot_name hn, hl, he]

/-- A path that leads somewhere gets there step by step. -/
theorem steps_of_spot {r : Route} {spot : Spot} (h : r.spot root throughLast = .ok spot) :
    ∃ last, Steps root throughLast r last ∧ Stops root throughLast last spot := by
  obtain ⟨n, here, pieces⟩ := r
  -- A link makes the pieces more but the links fewer, so the number of links is the outer induction.
  induction n using Nat.strongRecOn generalizing here pieces with
  | _ n ihn =>
  induction pieces generalizing here with
  | nil =>
    rw [spot_eq_follow, follow] at h
    split at h
    · next e he => cases h; exact ⟨_, .refl, .here he⟩
    · cases h
  | cons piece rest ih =>
    have further {next : Route} (hstep : Step root throughLast ⟨n, here, piece :: rest⟩ next)
        (hnext : ∃ last, Steps root throughLast next last ∧
          Stops root throughLast last spot) : ∃ last,
        Steps root throughLast ⟨n, here, piece :: rest⟩ last ∧
          Stops root throughLast last spot := by
      obtain ⟨last, hsteps, hstops⟩ := hnext
      exact ⟨last, hsteps.head hstep, hstops⟩
    rcases isName_or piece with hskip | rfl | hn | hlong
    · rw [spot_skip hskip] at h
      exact further (.skip hskip) (ih here h)
    · rw [spot_up] at h
      exact further .up (ih _ h)
    · rw [spot_name hn] at h
      cases hl : root.look (here ++ [piece]) with
      | none =>
        simp only [hl] at h
        split at h
        · next he => cases h; exact ⟨_, .refl, .vacant hn hl he⟩
        · cases h
      | some item =>
        cases item with
        | directory => rw [hl] at h; exact further (.down hn hl) (ih _ h)
        | file contents =>
          simp only [hl] at h
          split at h
          · next he =>
            cases h
            cases List.isEmpty_iff.mp he
            exact ⟨_, .refl, .file hn hl⟩
          · cases h
        | link target =>
          simp only [hl] at h
          split at h
          · next he =>
            obtain ⟨he, hlast⟩ := Bool.and_eq_true_iff.mp he
            cases h
            exact ⟨_, .refl, .link hn hl he (by simpa using hlast)⟩
          · next he =>
            cases n with
            | zero => cases h
            | succ n =>
              rw [onLink] at h
              split at h
              · cases h
              · next ht =>
                refine further (.link hn hl ht fun hrest => ?_) (ihn n n.lt_succ_self _ _ h)
                simpa [hrest] using he
    · rw [hlong] at h
      cases h

/-- Directories and links of a tree stand in another one too. -/
def KeepsWays (root root' : Entry) : Prop :=
  ∀ l, (root.look l = some .directory → root'.look l = some .directory) ∧
    ∀ target, root.look l = some (.link target) → root'.look l = some (.link target)

theorem Step.keeps {root' : Entry} {r r' : Route} (h : Step root throughLast r r')
    (hk : KeepsWays root root') : Step root' throughLast r r' := by
  cases h with
  | skip h => exact .skip h
  | up => exact .up
  | down hn hl => exact .down hn ((hk _).1 hl)
  | link hn hl ht hlast => exact .link hn ((hk _).2 _ hl) ht hlast

/-- A path that takes a link at its end as it is takes no step that the other one does not. -/
theorem Step.through {r r' : Route} (h : Step root throughLast r r') : Step root true r r' := by
  cases h with
  | skip h => exact .skip h
  | up => exact .up
  | down hn hl => exact .down hn hl
  | link hn hl ht _ => exact .link hn hl ht fun _ => rfl

def Route.append (r : Route) (more : List String) : Route :=
  { r with pieces := r.pieces ++ more }

theorem isEnd_append (ps qs : List String) : isEnd (ps ++ qs) = (isEnd ps && isEnd qs) :=
  List.all_append ..

theorem Step.append {r r' : Route} (h : Step root true r r') {more : List String}
    (hm : isEnd more = false) : Step root throughLast (r.append more) (r'.append more) := by
  cases h with
  | skip h => exact .skip h
  | up => exact .up
  | down hn hl => exact .down hn hl
  | link hn hl ht _ =>
    simp only [Route.append, List.append_assoc]
    exact .link hn hl ht fun he => by simp [isEnd_append, hm] at he

/-- Every step leads from a directory to a directory. -/
theorem Step.directory {r r' : Route} (h : Step root throughLast r r')
    (hr : root.look r.here = some .directory) : root.look r'.here = some .directory := by
  have hroot : root.look [] = some .directory := Entry.look_parent (m := r.here) hr
  cases h with
  | skip h => exact hr
  | @up n here rest =>
    rcases List.eq_nil_or_concat here with rfl | ⟨above, name, rfl⟩
    · exact hr
    · rw [List.concat_eq_append] at hr ⊢
      simpa using Entry.look_parent hr
  | down hn hl => exact hl
  | link hn hl ht hlast =>
    dsimp only
    split
    · exact hroot
    · exact hr

section

variable {r r' : Route} {root' : Entry} (h : Steps root throughLast r r')
include h

theorem steps_keep (hk : KeepsWays root root') : Steps root' throughLast r r' :=
  h.lift id fun _ _ hstep => hstep.keeps hk

theorem steps_through : Steps root true r r' :=
  h.lift id fun _ _ hstep => hstep.through

theorem steps_directory (hr : root.look r.here = some .directory) :
    root.look r'.here = some .directory := by
  induction h with
  | refl => exact hr
  | tail _ hstep ih => exact hstep.directory ih

end

theorem steps_append {r r' : Route} (h : Steps root true r r') {more : List String}
    (hm : isEnd more = false) :
    Steps root throughLast (r.append more) (r'.append more) :=
  h.lift (·.append more) fun _ _ hstep => hstep.append hm

/-- Slashes at the end of a path lead nowhere else. -/
theorem steps_isEnd {n : Nat} {here : Location} {rest : List String} (h : isEnd rest = true) :
    Steps root throughLast ⟨n, here, rest⟩ ⟨n, here, []⟩ := by
  induction rest with
  | nil => exact .refl
  | cons piece rest ih =>
    rw [isEnd, List.all_cons, Bool.and_eq_true] at h
    exact (ih h.2).head (.skip (.inl (beq_iff_eq.mp h.1)))

/-- A path that is followed at all. -/
structure Accepted (path : String) : Prop where
  nonempty : path ≠ ""
  noNul : path.toList.contains '\x00' = false
  short : path.utf8ByteSize < pathLimit

section

variable {fs : FileSystem} {path : String} {spot : Spot}

def start (fs : FileSystem) (path : String) : Route :=
  ⟨linkLimit, if Path.isAbsolute path then [] else fs.working, Path.pieces path⟩

theorem locate_eq (ha : Accepted path) :
    fs.locate throughLast path = (fs.start path).spot fs.root throughLast := by
  rw [locate, if_neg ha.nonempty, if_neg (by rw [ha.noNul]; exact Bool.false_ne_true),
    if_neg (Nat.not_le.mpr ha.short)]
  rfl

theorem accepted_of_locate (h : fs.locate throughLast path = .ok spot) : Accepted path := by
  simp only [locate] at h
  split at h
  · cases h
  · next hne =>
    split at h
    · cases h
    · next hnul =>
      split at h
      · cases h
      · next hshort => exact ⟨hne, Bool.not_eq_true _ ▸ hnul, Nat.not_le.mp hshort⟩

theorem steps_of_locate (h : fs.locate throughLast path = .ok spot) :
    ∃ last, Steps fs.root throughLast (fs.start path) last ∧
      Stops fs.root throughLast last spot :=
  steps_of_spot ((locate_eq (accepted_of_locate h)).symm.trans h)

theorem locate_of_steps (ha : Accepted path) {last : Route}
    (hsteps : Steps fs.root throughLast (fs.start path) last)
    (hstops : Stops fs.root throughLast last spot) : fs.locate throughLast path = .ok spot := by
  rw [locate_eq ha, spot_eq_of_steps hsteps, hstops.spot_eq]

theorem find_eq_ok {location : Location} {e : Entry} :
    fs.find path = .ok (location, e) ↔ fs.locate true path = .ok (.present location e) := by
  rw [find]
  split
  · next h => simp [h]
  · next h => simp [h]
  · next h => simp [h]

end

end Stubsmith.FileSystem
