import Stubsmith.Files.Entry

namespace Stubsmith

/-- What an entry is, the entries of a directory apart. -/
inductive Item where
  | file (contents : ByteArray)
  | link (target : String)
  | directory

namespace Entry

def item : Entry → Item
  | file contents => .file contents
  | link target => .link target
  | directory _ => .directory

def look (e : Entry) (l : Location) : Option Item :=
  (e.get? l).map item

@[simp] theorem item_eq_file {e : Entry} {contents : ByteArray} :
    e.item = .file contents ↔ e = file contents := by
  cases e <;> simp [item]

@[simp] theorem item_eq_directory {e : Entry} : e.item = .directory ↔ ∃ es, e = directory es := by
  cases e <;> simp [item]

theorem look_eq_none {e : Entry} {l : Location} : e.look l = none ↔ e.get? l = none := by
  simp [look]

theorem look_eq_file {e : Entry} {l : Location} {contents : ByteArray} :
    e.look l = some (.file contents) ↔ e.get? l = some (file contents) := by
  simp [look]

theorem look_eq_directory {e : Entry} {l : Location} :
    e.look l = some .directory ↔ ∃ es, e.get? l = some (directory es) := by
  rw [look, Option.map_eq_some_iff]
  constructor
  · rintro ⟨found, hf, hi⟩
    obtain ⟨es, rfl⟩ := item_eq_directory.mp hi
    exact ⟨es, hf⟩
  · rintro ⟨es, h⟩
    exact ⟨_, h, rfl⟩

theorem get?_append (e : Entry) (l m : Location) : e.get? (l ++ m) = (e.get? l).bind (get? · m) := by
  induction l generalizing e with
  | nil => rfl
  | cons name rest ih =>
    simp only [List.cons_append, get?]
    cases e.entries.lookup name with
    | none => rfl
    | some inner => exact ih inner

/-- Only a directory has something in it. -/
theorem look_parent {e : Entry} {l m : Location} (h : e.look (l ++ m) = some .directory) :
    e.look l = some .directory := by
  obtain ⟨es, h⟩ := look_eq_directory.mp h
  rw [get?_append] at h
  obtain ⟨above, ha, hm⟩ := Option.bind_eq_some_iff.mp h
  cases m with
  | nil => cases hm; exact look_eq_directory.mpr ⟨es, ha⟩
  | cons name rest =>
    cases above with
    | directory inner => exact look_eq_directory.mpr ⟨inner, ha⟩
    | _ => simp [get?, entries] at hm

/-- Below nothing there is nothing. -/
theorem look_below {e : Entry} {l : Location} (h : e.look l = none) (m : Location) :
    e.look (l ++ m) = none := by
  rw [look_eq_none] at h ⊢
  rw [get?_append, h, Option.bind_none]

theorem lookup_putName (name n : String) (new : Entry) (es : List (String × Entry)) :
    (putName name new es).lookup n = if n = name then some new else es.lookup n := by
  induction es with
  | nil => by_cases h : n = name <;> simp [putName, List.lookup_cons, h, beq_false_of_ne]
  | cons e rest ih =>
    obtain ⟨first, old⟩ := e
    by_cases hf : first = name
    · by_cases h : n = name <;> simp [putName, List.lookup_cons, hf, h, beq_false_of_ne]
    · by_cases h : n = first
      · simp [putName, hf, h]
      · simp [putName, List.lookup_cons, hf, beq_false_of_ne h, ih]

theorem get?_of_entries {e : Entry} (h : e.entries = []) (name : String) (l : Location) :
    e.get? (name :: l) = none := by
  simp [get?, h]

/-- Putting an entry with nothing in it where a directory leads changes what stands there and
nothing else, provided that what stood there had nothing in it. -/
theorem look_put {new root : Entry} {parent : Location} {name : String}
    (hp : root.look parent = some .directory) (hnew : new.entries = [])
    (hold : ∀ old, root.get? (parent ++ [name]) = some old → old.entries = []) (l : Location) :
    (put new (parent ++ [name]) root).look l =
      if l = parent ++ [name] then some new.item else root.look l := by
  induction parent generalizing root l with
  | nil =>
    obtain ⟨es, hr⟩ := look_eq_directory.mp hp
    cases hr
    cases l with
    | nil => simp [look, put, get?, item]
    | cons n rest =>
      simp only [look, List.nil_append, put, get?, entries, lookup_putName]
      by_cases hn : n = name
      · subst hn
        cases rest with
        | nil => simp [get?]
        | cons m rest =>
          cases hl : es.lookup n with
          | none => simp [get?_of_entries hnew]
          | some old =>
            have ho := hold old (by simp [get?, entries, hl])
            simp [get?_of_entries hnew, get?_of_entries ho]
      · simp [hn]
  | cons first parent ih =>
    obtain ⟨es, hr⟩ := look_eq_directory.mp (look_parent (l := []) hp)
    cases hr
    obtain ⟨inner, hl, hi⟩ : ∃ inner, es.lookup first = some inner ∧
        inner.look parent = some .directory := by
      cases hl : es.lookup first with
      | none => simp [look, get?, entries, hl] at hp
      | some inner => exact ⟨inner, rfl, by simpa [look, get?, entries, hl] using hp⟩
    have hput : put new (first :: parent ++ [name]) (directory es) =
        directory (putName first (put new (parent ++ [name]) inner) es) := by
      cases parent <;> simp [put, hl]
    rw [hput]
    cases l with
    | nil => simp [look, get?, item]
    | cons n rest =>
      by_cases hn : n = first
      · subst hn
        have hr := ih hi (fun old h => hold old (by simpa [get?, entries, hl] using h)) rest
        simpa [look, get?, entries, lookup_putName, hl] using hr
      · simp [look, get?, entries, lookup_putName, hn]

end Entry

end Stubsmith
