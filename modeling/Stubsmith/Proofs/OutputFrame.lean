import Stubsmith.Command.Run
import Stubsmith.Proofs.Directories

namespace Stubsmith

/-- Where writing to a spot changes a file or makes one. -/
def Spot.target? : Spot → Option Location
  | .present location (.file _) => some location
  | .vacant parent name false => some (parent ++ [name])
  | _ => none

namespace FileSystem

/-- What the file at a location holds; absent where no file is. -/
def contents? (fs : FileSystem) (l : Location) : Option ByteArray :=
  match fs.root.get? l with
  | some (.file contents) => some contents
  | _ => none

variable {fs after : FileSystem} {path : String}

theorem contents?_eq_some {l : Location} {contents : ByteArray} :
    fs.contents? l = some contents ↔ fs.root.look l = some (.file contents) := by
  rw [Entry.look_eq_file, contents?]
  split
  · next found h => simp [h]
  · next hne => simpa using fun h => hne _ h

theorem contents?_congr {l : Location} (h : after.root.look l = fs.root.look l) :
    after.contents? l = fs.contents? l := by
  ext contents
  rw [contents?_eq_some, contents?_eq_some, h]

theorem contents?_of_look_none {l : Location} (h : fs.root.look l = none) :
    fs.contents? l = none := by
  rw [contents?, Entry.look_eq_none.mp h]

theorem Grows.contents?_eq (h : Grows fs after) (l : Location) :
    after.contents? l = fs.contents? l := by
  rcases h.look l with he | ⟨hnone, hdir⟩
  · exact contents?_congr he
  · obtain ⟨es, hes⟩ := Entry.look_eq_directory.mp hdir
    rw [contents?_of_look_none hnone, contents?, hes]

theorem exists?_eq_true : fs.exists? path = true ↔ ∃ l e, fs.find path = .ok (l, e) := by
  rw [exists?]
  cases fs.find path with
  | ok found => exact ⟨fun _ => ⟨found.1, found.2, rfl⟩, fun _ => rfl⟩
  | error e => simp [Except.isOk, Except.toBool]

/-- The path of a file, which is there or could be made, leads to a name in a directory. -/
structure LeadsToFile (fs : FileSystem) (path : String) (l : Location) : Prop where
  way : ∃ n parent name, l = parent ++ [name] ∧
    Steps fs.root true (fs.start path) ⟨n, parent, [name]⟩ ∧ IsName name ∧
    fs.root.look parent = some .directory
  item : fs.root.look l = none ∧ fs.exists? path = false ∨
    (∃ contents, fs.root.look l = some (.file contents)) ∧ fs.exists? path = true

theorem leadsToFile (hs : fs.Sound) {spot : Spot} {l : Location}
    (h : fs.locate true path = .ok spot) (ht : spot.target? = some l) :
    LeadsToFile fs path l := by
  obtain ⟨last, hsteps, hstops⟩ := steps_of_locate h
  have hdir := steps_directory hsteps (start_directory hs path)
  cases hstops with
  | here he =>
    obtain ⟨es, hes⟩ := Entry.look_eq_directory.mp hdir
    cases he.symm.trans hes
    cases ht
  | file hn hl =>
    cases ht
    exact ⟨⟨_, _, _, rfl, hsteps, hn, hdir⟩,
      .inr ⟨⟨_, hl⟩, exists?_eq_true.mpr ⟨_, _, find_eq_ok.mpr h⟩⟩⟩
  | link hn hl he hlast => cases hlast
  | @vacant n here piece rest hn hl he =>
    cases rest with
    | cons first more => cases ht
    | nil =>
      cases ht
      refine ⟨⟨_, _, _, rfl, hsteps, hn, hdir⟩, .inl ⟨hl, ?_⟩⟩
      rw [exists?, find, h]
      rfl

theorem writeFile_error {contents : ByteArray} {e : IoError}
    (h : fs.writeFile path contents = (.error e, after)) : after = fs := by
  simp only [writeFile] at h
  split at h
  · split at h <;> cases h <;> rfl
  · split at h <;> cases h <;> rfl

theorem writeFile_target {contents : ByteArray}
    (h : fs.writeFile path contents = (.ok (), after)) :
    ∃ spot l, fs.locate true path = .ok spot ∧ spot.target? = some l ∧
      after = fs.put l (.file contents) := by
  simp only [writeFile] at h
  split at h
  · split at h <;> cases h
  · split at h
    · next location old hlocate => cases h; exact ⟨_, location, hlocate, rfl, rfl⟩
    · cases h
    · next parent name hlocate => cases h; exact ⟨_, parent ++ [name], hlocate, rfl, rfl⟩
    · cases h
    · cases h

/-- A file that is written is found again where its path leads, and nothing else changes. -/
theorem writeFile_ok (hs : fs.Sound) {contents : ByteArray}
    (h : fs.writeFile path contents = (.ok (), after)) :
    ∃ spot l, fs.locate true path = .ok spot ∧ spot.target? = some l ∧
      after.find path = .ok (l, .file contents) ∧
      (∀ l', l' ≠ l → after.root.look l' = fs.root.look l') ∧
      (fs.contents? l = none ↔ fs.exists? path = false) := by
  obtain ⟨spot, l, hlocate, ht, rfl⟩ := writeFile_target h
  obtain ⟨⟨n, parent, name, rfl, hsteps, hn, hp⟩, hold⟩ := leadsToFile hs hlocate ht
  have hlook (l : Location) : (fs.put (parent ++ [name]) (.file contents)).root.look l =
      if l = parent ++ [name] then some (.file contents) else fs.root.look l := by
    refine Entry.look_put hp rfl (fun old ho => ?_) l
    rcases hold with ⟨hnone, -⟩ | ⟨⟨was, hfile⟩, -⟩
    · rw [Entry.look_eq_none.mp hnone] at ho
      cases ho
    · rw [Entry.look_eq_file.mp hfile] at ho
      cases ho
      rfl
  have hkeep : KeepsWays fs.root (fs.put (parent ++ [name]) (.file contents)).root := by
    intro l
    rw [hlook]
    split
    · next hl =>
      subst hl
      rcases hold with ⟨hnone, -⟩ | ⟨⟨was, hfile⟩, -⟩
      · simp [hnone]
      · simp [hfile]
    · exact ⟨id, fun _ => id⟩
  have hnew := hlook (parent ++ [name])
  rw [if_pos rfl] at hnew
  refine ⟨spot, _, hlocate, ht, ?_, fun l' hl' => by rw [hlook, if_neg hl'], ?_⟩
  · exact find_eq_ok.mpr (locate_of_steps (accepted_of_locate hlocate)
      (steps_keep hsteps hkeep) (.file hn hnew))
  · rcases hold with ⟨hnone, hex⟩ | ⟨⟨was, hfile⟩, hex⟩
    · simp [contents?_of_look_none hnone, hex]
    · simp [contents?_eq_some.mpr hfile, hex]

/-- The file system with the directories that a path is to be in. -/
def directoriesFor (fs : FileSystem) (path : String) : FileSystem :=
  (fs.makeDirectories ((Path.parent? path).getD "")).2

/-- A path that does not lead up again from a directory that is made for it: it has no step up, or
its directories are there. -/
def Direct (fs : FileSystem) (path : String) : Prop :=
  ".." ∉ Path.pieces path ∨ ∀ parent ∈ Path.parent? path, parent = "" ∨ fs.isDirectory parent = true

/-- What writing a text to a path has done: the text is in the file that the path leads to, at a
location, and the other files are as they were. -/
structure Written (fs after : FileSystem) (path text : String) (l : Location) : Prop where
  found : after.find path = .ok (l, .file text.toUTF8)
  elsewhere : ∀ l', l' ≠ l → after.contents? l' = fs.contents? l'
  /-- The file is new exactly if the path leads to nothing once its directories are made. -/
  new_iff : fs.contents? l = none ↔ (fs.directoriesFor path).exists? path = false
  new_of_direct : fs.Direct path → fs.exists? path = false → fs.contents? l = none

theorem makeDirectories_empty (fs : FileSystem) : fs.makeDirectories "" = (.ok (), fs) := rfl

/-- Where nothing was to be found at a direct path, nothing is at its location. -/
theorem look_of_direct (hs : fs.Sound) (hdirect : fs.Direct path) (hex : fs.exists? path = false)
    {spot : Spot} {l : Location} {made : FileSystem}
    (hmade : fs.makeDirectories ((Path.parent? path).getD "") = (.ok (), made))
    (hlocate : made.locate true path = .ok spot) (ht : spot.target? = some l) :
    fs.root.look l = none := by
  have hgrows := makeDirectories_grows hs hmade
  have hold := (leadsToFile (hgrows.sound hs) hlocate ht).item
  have hsame (he : made = fs) : fs.root.look l = none := by
    subst he
    rcases hold with ⟨hnone, -⟩ | ⟨-, hex'⟩
    · exact hnone
    · rw [hex] at hex'
      cases hex'
  cases hparent : Path.parent? path with
  | none =>
    rw [hparent] at hmade
    cases hmade
    exact hsame rfl
  | some parent =>
    rw [hparent, Option.getD_some] at hmade
    rcases hdirect with hdots | hthere
    · have hdots' : ".." ∉ Path.pieces parent := fun hm =>
        (Path.mem_pieces_parent hparent hm).elim (by decide) hdots
      rcases makeDirectoriesWithin_ok hs hdots' hmade with he | ⟨lp, e, hfind, -, hdir, hempty⟩
      · exact hsame he
      · -- The directory is new and empty, so that the path finds the directory itself or nothing.
        apply hgrows.look_none
        rcases hold with ⟨hnone, -⟩ | ⟨⟨was, hfile⟩, -⟩
        · exact hnone
        · rcases locate_inEmpty hparent hdots hfind hdir hempty hlocate with
            ⟨e', rfl⟩ | ⟨name, slash, rfl⟩
          · cases e' <;> cases ht
            rw [hfile] at hdir
            cases hdir
          · cases slash <;> cases ht
            exact hempty name
    · rcases hthere parent hparent with rfl | hisdir
      · rw [makeDirectories_empty] at hmade
        cases hmade
        exact hsame rfl
      · rw [makeDirectories_of_isDirectory hisdir] at hmade
        cases hmade
        exact hsame rfl

theorem checkOutput_ok {force : Bool} (h : fs.checkOutput path force = .ok ()) :
    fs.exists? path = true → force = true := by
  simp only [checkOutput] at h
  split at h
  · cases h
  · split at h
    · cases h
    · next hn => simpa using hn

/-- Writing stubs ends at the check, or while directories are made, or with the file itself. -/
theorem writeOutput_cases {text : String} {force : Bool} {done : Except Failure Unit}
    (h : fs.writeOutput path text force = (done, after)) :
    (∃ failure, done = .error failure) ∧ after = fs ∨
      fs.checkOutput path force = .ok () ∧ ∃ outcome made,
        fs.makeDirectories ((Path.parent? path).getD "") = (outcome, made) ∧
          ((∃ failure, done = .error failure) ∧ after = made ∨
            outcome = .ok () ∧ ∃ written, made.writeFile path text.toUTF8 = (written, after) ∧
              done = written.mapError (.io path)) := by
  simp only [writeOutput] at h
  split at h
  · cases h
    exact .inl ⟨⟨_, rfl⟩, rfl⟩
  · next hcheck =>
    cases hmade : fs.makeDirectories ((Path.parent? path).getD "") with
    | mk outcome made =>
      refine .inr ⟨hcheck, outcome, made, rfl, ?_⟩
      rw [hmade] at h
      cases outcome with
      | error e =>
        cases h
        exact .inl ⟨⟨_, rfl⟩, rfl⟩
      | ok =>
        refine .inr ⟨rfl, ?_⟩
        dsimp only [failingAt] at h
        split at h
        · next final hwrite => cases h; exact ⟨_, hwrite, rfl⟩
        · next e final hwrite => cases h; exact ⟨_, hwrite, rfl⟩

theorem writeOutput_error (hs : fs.Sound) {text : String} {force : Bool} {cause : Failure}
    (h : fs.writeOutput path text force = (.error cause, after)) : Grows fs after := by
  rcases writeOutput_cases h with ⟨-, rfl⟩ | ⟨-, outcome, made, hmade, hrest⟩
  · exact .refl after
  · have hgrows := makeDirectories_grows hs hmade
    rcases hrest with ⟨-, rfl⟩ | ⟨-, written, hwrite, hdone⟩
    · exact hgrows
    · cases written with
      | error e =>
        cases writeFile_error hwrite
        exact hgrows
      | ok => cases hdone

theorem writeOutput_ok (hs : fs.Sound) {text : String} {force : Bool}
    (h : fs.writeOutput path text force = (.ok (), after)) :
    (fs.exists? path = true → force = true) ∧ ∃ l, Written fs after path text l := by
  rcases writeOutput_cases h with
    ⟨⟨_, hfail⟩, -⟩ | ⟨hcheck, outcome, made, hmade, ⟨⟨_, hfail⟩, -⟩ | ⟨rfl, written, hwrite, hdone⟩⟩
  · cases hfail
  · cases hfail
  · cases written with
    | error e => cases hdone
    | ok =>
      have hgrows := makeDirectories_grows hs hmade
      obtain ⟨spot, l, hlocate, ht, hfind, helse, hnew⟩ := writeFile_ok (hgrows.sound hs) hwrite
      refine ⟨checkOutput_ok hcheck, l, hfind, fun l' hl' => ?_, ?_, fun hdirect hex => ?_⟩
      · rw [contents?_congr (helse l' hl'), hgrows.contents?_eq]
      · rw [directoriesFor, hmade, ← hgrows.contents?_eq]
        exact hnew
      · exact contents?_of_look_none (look_of_direct hs hdirect hex hmade hlocate ht)

end FileSystem

/-- A run that fails changes no file and makes none. One that succeeds without a path to write to
changes nothing at all, and with one it writes the stubs to that path. Unless it may overwrite, and
as long as the path is direct, every file that was there before is as it was. -/
theorem CommandLine.run_frame (c : CommandLine) (parse : String → Except ParseError (List Decl))
    {fs after : FileSystem} (hs : fs.Sound) {done : Except RunError String}
    (h : c.run parse fs = (done, after)) :
    match done, c.value? .out with
    | .error _, _ => ∀ l, after.contents? l = fs.contents? l
    | .ok _, none => after = fs
    | .ok _, some path => ∃ j l, c.job fs = .ok j ∧
        fs.Written after path ((j.result parse fs).print j.header) l ∧
        (c.has .force = false → fs.Direct path →
          ∀ l', fs.contents? l' ≠ none → after.contents? l' = fs.contents? l') := by
  simp only [CommandLine.run] at h
  split at h
  · cases h
    exact fun l => rfl
  · next j hjob =>
    cases hout : c.value? .out with
    | none =>
      rw [hout] at h
      cases h
      rfl
    | some path =>
      rw [hout] at h
      dsimp only at h
      split at h
      · next written hwrite =>
        cases h
        obtain ⟨hforce, l, hwritten⟩ := FileSystem.writeOutput_ok hs hwrite
        refine ⟨j, l, hjob, hwritten, fun hno hdirect l' hl' => ?_⟩
        have hex : fs.exists? path = false := by
          cases he : fs.exists? path with
          | false => rfl
          | true =>
            rw [hforce he] at hno
            cases hno
        by_cases he : l' = l
        · exact absurd (he ▸ hwritten.new_of_direct hdirect hex) hl'
        · exact hwritten.elsewhere l' he
      · next cause written hwrite =>
        cases h
        exact (FileSystem.writeOutput_error hs hwrite).contents?_eq

/-- A source that declares nothing, and a file that a run may not touch unasked. -/
def keptFiles : FileSystem where
  root := .directory [("in.php", .file "<?php\n".toUTF8), ("old.php", .file "kept\n".toUTF8)]

def writeTo (path : String) : CommandLine where
  sources := ["in.php"]
  values := [(.out, path)]

/-- What is read from a source that declares nothing. -/
def parseNothing (_ : String) : Except ParseError (List Decl) :=
  .ok []

theorem canonicalPaths_nil : canonicalPaths [] = [] := by
  simp [canonicalPaths, dropRepeated]

theorem job_writeTo {path : String} (h : keptFiles.checkOutput path false = .ok ()) :
    (writeTo path).job keptFiles = .ok ⟨{}, none, ["in.php"]⟩ := by
  have hcheck : (writeTo path).checkOutput keptFiles = .ok () :=
    congrArg (Except.mapError RunError.failure) h
  have hfound : keptFiles.sources [] ["in.php"] = .ok ["in.php"] := by
    have hnamed : Found.addSource keptFiles (excludes []) {} "in.php" =
      .ok { named := ["in.php"] } := by rfl
    simp [FileSystem.sources, readPatterns, findSources, hnamed, canonicalPaths_nil, Except.map]
  have hrest : (writeTo path).job keptFiles = (do
      (writeTo path).checkOutput keptFiles
      let files ← (keptFiles.sources [] ["in.php"]).mapError RunError.failure
      return ⟨{}, none, files⟩) := by rfl
  rw [hrest, hcheck, hfound]
  rfl

theorem run_writeTo (path : String) {after : FileSystem}
    (h : keptFiles.writeOutput path "<?php\n" false = (.ok (), after)) :
    ∃ report, (writeTo path).run parseNothing keptFiles = (.ok report, after) := by
  have hcheck : keptFiles.checkOutput path false = .ok () := by
    cases hc : keptFiles.checkOutput path false with
    | ok => rfl
    | error failure =>
      rw [FileSystem.writeOutput, hc] at h
      cases h
  have hprint : ((Job.mk {} none ["in.php"]).result parseNothing keptFiles).print none =
      "<?php\n" := by decide +kernel
  have hout : (writeTo path).value? .out = some path := rfl
  have hforce : (writeTo path).has .force = false := rfl
  rw [CommandLine.run, job_writeTo hcheck]
  simp only [hprint, hout, hforce, h]
  exact ⟨_, rfl⟩

theorem run_newDirectory :
    keptFiles.Sound ∧ keptFiles.Direct "out/stubs.php" ∧
      ∃ report after, (writeTo "out/stubs.php").run parseNothing keptFiles = (.ok report, after) ∧
        after.contents? ["out", "stubs.php"] = some "<?php\n".toUTF8 ∧
        ∀ l, keptFiles.contents? l ≠ none → after.contents? l = keptFiles.contents? l := by
  have hsound : keptFiles.Sound := rfl
  have hdirect : keptFiles.Direct "out/stubs.php" := .inl (by decide +kernel)
  obtain ⟨report, hrun⟩ := run_writeTo "out/stubs.php" rfl
  obtain ⟨j, l, hjob, hwritten, hkept⟩ := CommandLine.run_frame _ _ hsound hrun
  exact ⟨hsound, hdirect, report, _, hrun, by decide +kernel, hkept rfl hdirect⟩

/-- A path through a directory that is made and left again leads to a file that is overwritten
unasked. -/
theorem run_leftDirectory :
    keptFiles.Sound ∧ (writeTo "new/../old.php").has .force = false ∧
      ∃ report after, (writeTo "new/../old.php").run parseNothing keptFiles = (.ok report, after) ∧
        keptFiles.contents? ["old.php"] = some "kept\n".toUTF8 ∧
        after.contents? ["old.php"] = some "<?php\n".toUTF8 ∧
        after.contents? ["old.php"] ≠ keptFiles.contents? ["old.php"] := by
  obtain ⟨report, hrun⟩ := run_writeTo "new/../old.php" rfl
  exact ⟨rfl, rfl, report, _, hrun, by decide +kernel, by decide +kernel,
    by decide +kernel⟩

end Stubsmith
