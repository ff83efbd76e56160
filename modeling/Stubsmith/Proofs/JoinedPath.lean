import Stubsmith.Proofs.ParentPath

namespace Stubsmith

namespace Path

theorem isAbsolute_eq_false {name : String} (h : '/' ∉ name.toList) : isAbsolute name = false := by
  rw [isAbsolute]
  cases hcs : name.toList with
  | nil => rfl
  | cons c cs =>
    rw [hcs] at h
    have hc : c ≠ '/' := fun hc => h (hc ▸ List.mem_cons_self)
    simpa using hc

/-- The characters that the pieces of a path are cut from. -/
def unrooted (path : String) : List Char :=
  if isAbsolute path then path.toList.drop 1 else path.toList

theorem pieces_eq (path : String) :
    pieces path = ((unrooted path).splitOn '/').map String.ofList := by
  rw [← Text.splitOn_eq]
  rfl

theorem unrooted_append {path : String} (h : path ≠ "") (more : String) :
    isAbsolute (path ++ more) = isAbsolute path ∧
      unrooted (path ++ more) = unrooted path ++ more.toList := by
  obtain ⟨c, cs, hcs⟩ := List.exists_cons_of_ne_nil fun h' => h (String.toList_eq_nil_iff.1 h')
  have ha : isAbsolute (path ++ more) = isAbsolute path := by simp [isAbsolute, hcs]
  refine ⟨ha, ?_⟩
  rw [unrooted, ha, unrooted]
  split <;> simp [hcs]

theorem pieces_of_append {path : String} {front back : List Char}
    (h : unrooted path = front ++ '/' :: back) (hback : '/' ∉ back) :
    pieces path = (front.splitOn '/').map String.ofList ++ [String.ofList back] := by
  rw [pieces_eq, h, Text.splitOn_append_cons, List.splitOn_eq_singleton hback, List.map_append,
    List.map_singleton]

theorem unrooted_suffix (path : String) : unrooted path <:+ path.toList := by
  rw [unrooted]
  split
  · exact List.drop_suffix 1 _
  · exact List.suffix_refl _

/-- A path that goes on with a name has its own pieces first. A slash at its end is an empty one, in
the place of which the name stands. -/
theorem pieces_join (path : String) {name : String} (h : '/' ∉ name.toList) :
    isAbsolute (join path name) = isAbsolute path ∧
      ∃ front, (pieces path = front ∨ pieces path = front ++ [""]) ∧
        pieces (join path name) = front ++ [name] := by
  have hroot := isAbsolute_eq_false h
  have hname : pieces name = [name] := by
    rw [pieces_eq, unrooted, hroot, if_neg Bool.false_ne_true, List.splitOn_eq_singleton h,
      List.map_singleton, String.ofList_toList]
  rw [join, hroot, if_neg Bool.false_ne_true]
  by_cases hne : path = ""
  · subst hne
    exact ⟨hroot, [], .inr rfl, hname⟩
  by_cases hslash : path.toList.getLast? = some '/'
  · obtain ⟨ha, hmore⟩ := unrooted_append hne name
    rw [if_pos (by simp [hslash])]
    refine ⟨ha, ?_⟩
    rcases List.eq_nil_or_concat (unrooted path) with hnil | ⟨front, last, hfront⟩
    · -- the path is the root alone
      refine ⟨[], .inr (by rw [pieces_eq, hnil]; rfl), ?_⟩
      rw [pieces_eq, hmore, hnil, List.nil_append, List.splitOn_eq_singleton h, List.map_singleton,
        String.ofList_toList]
      rfl
    · rw [List.concat_eq_append] at hfront
      obtain ⟨lead, hlead⟩ := unrooted_suffix path
      obtain rfl : last = '/' := by simpa [← hlead, hfront] using hslash
      refine ⟨_, .inr (pieces_of_append hfront (by simp)), ?_⟩
      have hjoin : unrooted (path ++ name) = front ++ '/' :: name.toList := by simp [hmore, hfront]
      rw [pieces_of_append hjoin h, String.ofList_toList]
  · obtain ⟨ha, hmore⟩ := unrooted_append hne ("/" ++ name)
    rw [if_neg (by simpa [hne] using hslash), String.append_assoc]
    refine ⟨ha, _, .inl rfl, ?_⟩
    rw [pieces_of_append (by simpa using hmore) h, pieces_eq, String.ofList_toList]

end Path

namespace FileSystem

variable {root : Entry} {throughLast : Bool} {n m : Nat} {here location : Location}
  {pieces : List String} {spot spot' : Spot}

/-- Two slashes are one where something else follows. -/
theorem spot_between {behind : List String} (h : isEnd behind = false) :
    Route.spot root throughLast ⟨n, here, pieces ++ "" :: behind⟩ =
      Route.spot root throughLast ⟨n, here, pieces ++ behind⟩ := by
  -- as where a path leads: the number of links is the outer induction
  induction n using Nat.strongRecOn generalizing here pieces with
  | _ n ihn =>
  induction pieces generalizing here with
  | nil => exact spot_skip (.inl rfl) ..
  | cons piece rest ih =>
    have hne : behind ≠ [] := by
      rintro rfl
      cases h
    rw [List.cons_append, List.cons_append]
    rcases isName_or piece with hskip | rfl | hn | hlong
    · rw [spot_skip hskip, spot_skip hskip, ih]
    · rw [spot_up, spot_up, ih]
    · rw [spot_name hn, spot_name hn]
      have hend : isEnd (rest ++ "" :: behind) = isEnd (rest ++ behind) := by
        simp [isEnd]
      have hnot : isEnd (rest ++ behind) = false := by simp [isEnd_append, h]
      cases root.look (here ++ [piece]) with
      | none => simp [hend, hnot]
      | some item =>
        cases item with
        | file contents => simp [hne]
        | directory => exact ih
        | link target =>
          cases n with
          | zero => simp [hend, hnot, onLink]
          | succ n =>
            have hlink (l : Location) :
                Route.spot root throughLast ⟨n, l, Path.pieces target ++ (rest ++ "" :: behind)⟩ =
                  Route.spot root throughLast ⟨n, l, Path.pieces target ++ (rest ++ behind)⟩ := by
              rw [← List.append_assoc, ← List.append_assoc]
              exact ihn n n.lt_succ_self
            simp only [hend, hnot, onLink, Bool.false_and, Bool.false_eq_true, if_false]
            split
            · rfl
            · exact hlink _
    · rw [hlong, hlong]

/-- The same with more links that may be followed. -/
def Route.raise (r : Route) (k : Nat) : Route :=
  { r with links := r.links + k }

theorem Step.raise {r r' : Route} (h : Step root throughLast r r') (k : Nat) :
    Step root throughLast (r.raise k) (r'.raise k) := by
  cases h with
  | skip h => exact .skip h
  | up => exact .up
  | down hn hl => exact .down hn hl
  | @link n here piece target rest hn hl ht hlast =>
    simp only [Route.raise, Nat.add_right_comm n 1 k]
    exact .link hn hl ht hlast

theorem Stops.raise {r : Route} (h : Stops root throughLast r spot) (k : Nat) :
    Stops root throughLast (r.raise k) spot := by
  cases h with
  | here h => exact .here h
  | file hn hl => exact .file hn hl
  | link hn hl he hlast => exact .link hn hl he hlast
  | vacant hn hl he => exact .vacant hn hl he

theorem spot_raise {r : Route} (h : r.spot root throughLast = .ok spot) (k : Nat) :
    (r.raise k).spot root throughLast = .ok spot := by
  obtain ⟨last, hsteps, hstops⟩ := steps_of_spot h
  have hraised : Steps root throughLast (r.raise k) (last.raise k) :=
    hsteps.lift (·.raise k) fun _ _ hstep => hstep.raise k
  rw [spot_eq_of_steps hraised, (hstops.raise k).spot_eq]

/-- Pieces lead to one place at most, however many links may be followed. -/
theorem spot_unique (h : Route.spot root throughLast ⟨n, here, pieces⟩ = .ok spot)
    (h' : Route.spot root throughLast ⟨m, here, pieces⟩ = .ok spot') : spot = spot' := by
  have hn := spot_raise h m
  have hm := spot_raise h' n
  rw [Route.raise] at hn hm
  rw [Nat.add_comm n m, hm] at hn
  exact (Except.ok.inj hn).symm

/-- What stands behind a path is looked up at a location. -/
def ContinuesAt (fs : FileSystem) (path : String) (here : Location) : Prop :=
  ∃ n, ∀ behind, isEnd behind = false →
    ((fs.start path).append behind).spot fs.root true = Route.spot fs.root true ⟨n, here, behind⟩

variable {fs : FileSystem} {path name : String} {es : List (String × Entry)} {e : Entry}

theorem continuesAt_of_find (h : fs.find path = .ok (here, .directory es)) :
    fs.root.get? here = some (.directory es) ∧ fs.ContinuesAt path here := by
  obtain ⟨last, hsteps, hstops⟩ := steps_of_locate (find_eq_ok.1 h)
  cases hstops with
  | @here n _ _ hget => exact ⟨hget, n, fun behind hb => spot_eq_of_steps (steps_append hsteps hb)⟩

theorem spot_join (hslash : '/' ∉ name.toList) (hne : name ≠ "") (behind : List String) :
    ((fs.start (Path.join path name)).append behind).spot fs.root true =
      ((fs.start path).append (name :: behind)).spot fs.root true := by
  obtain ⟨ha, front, hpieces, hjoin⟩ := Path.pieces_join path hslash
  have hend : isEnd (name :: behind) = false := by simp [isEnd, hne]
  simp only [start, Route.append, ha, hjoin, List.append_assoc, List.singleton_append]
  rcases hpieces with hpieces | hpieces
  · rw [hpieces]
  · rw [hpieces, List.append_assoc]
    exact (spot_between hend).symm

namespace ContinuesAt

theorem down (h : fs.ContinuesAt path here) (hn : IsName name) (hslash : '/' ∉ name.toList)
    (hdir : fs.root.look (here ++ [name]) = some .directory) :
    fs.ContinuesAt (Path.join path name) (here ++ [name]) := by
  obtain ⟨n, h⟩ := h
  refine ⟨n, fun behind hb => ?_⟩
  have hend : isEnd (name :: behind) = false := by simp [isEnd, hn.nonempty]
  rw [spot_join hslash hn.nonempty, h _ hend, spot_name hn, hdir]

/-- What a path with a name behind it leads to is what the name leads to. -/
theorem spot_of_find (h : fs.ContinuesAt path here) (hn : IsName name) (hslash : '/' ∉ name.toList)
    (hfind : fs.find (Path.join path name) = .ok (location, e)) :
    ∃ n, Route.spot fs.root true ⟨n, here, [name]⟩ = .ok (.present location e) := by
  obtain ⟨n, h⟩ := h
  refine ⟨n, ?_⟩
  have hlocate := find_eq_ok.1 hfind
  rw [locate_eq (accepted_of_locate hlocate)] at hlocate
  have hstart : fs.start (Path.join path name) = (fs.start (Path.join path name)).append [] := by
    simp [Route.append]
  rw [← hlocate, hstart, spot_join hslash hn.nonempty, h _ (by simp [isEnd, hn.nonempty])]

end ContinuesAt

end FileSystem

end Stubsmith
