import MapScript.Console.Commands
import MapScript.Console.Disk

/-!
# Files keep what was last written to them

`LeadsTo d s place` says that the file at `place` is the one that is read and written under the path
`s`, whether it is there yet or not:

    d.LeadsTo s place → d.write s content = .ok (d.put place content)            (LeadsTo.write_eq)
    d.LeadsTo s place → d.file? place = some content → d.read s = .ok content    (LeadsTo.read_eq)

A path goes on to lead there when files are written (`LeadsTo.put`), and the paths of files in one
folder lead to different places if the names differ (`getLast?_of_leadsTo_joinPath`).
-/

namespace MapScript.Console

/-! ## Paths -/

namespace Path

theorem splitSlashes_ne_nil (cs : List Char) : splitSlashes cs ≠ [] := by
  cases cs with
  | nil => simp [splitSlashes]
  | cons c cs =>
    rw [splitSlashes]
    split
    · simp
    · split <;> simp

theorem splitSlashes_append_slash (xs ys : List Char) :
    splitSlashes (xs ++ '/' :: ys) = splitSlashes xs ++ splitSlashes ys := by
  induction xs with
  | nil => simp [splitSlashes]
  | cons c xs ih =>
    rw [List.cons_append, splitSlashes, splitSlashes, ih]
    split
    · rfl
    · cases hxs : splitSlashes xs with
      | nil => exact absurd hxs (splitSlashes_ne_nil xs)
      | cons p ps => rfl

theorem splitSlashes_of_not_mem {cs : List Char} (h : '/' ∉ cs) : splitSlashes cs = [cs] := by
  induction cs with
  | nil => rfl
  | cons c cs ih =>
    rw [List.mem_cons, not_or] at h
    rw [splitSlashes, if_neg (Ne.symm h.1), ih h.2]

theorem names_of_parse {s : String} {path : Path} (h : parse s = .ok path) :
    path.names = namesOf s := by
  unfold parse at h
  simp only at h
  split at h
  · cases h
  · split at h
    · cases h
    · split at h
      · cases h
      · rw [← Except.ok.inj h]

end Path

/-- A file in a folder stands behind a slash in its path. -/
theorem exists_toList_joinPath (folder : String) {name : String} (h : '/' ∉ name.toList) :
    ∃ cs, (joinPath folder name).toList = cs ++ '/' :: name.toList := by
  have hhead : name.toList.head? ≠ some '/' := fun he => h (List.mem_of_head? he)
  unfold joinPath
  rw [if_neg hhead]
  split
  · next hlast =>
    obtain ⟨cs, hcs⟩ := List.getLast?_eq_some_iff.mp hlast
    exact ⟨cs, by rw [String.toList_append, hcs]; simp⟩
  · exact ⟨folder.toList, by simp⟩

theorem getLast?_namesOf_joinPath (folder : String) {name : String} (h : '/' ∉ name.toList)
    (hne : name ≠ "") : (Path.namesOf (joinPath folder name)).getLast? = some name := by
  obtain ⟨cs, hcs⟩ := exists_toList_joinPath folder h
  simp [Path.namesOf, hcs, Path.splitSlashes_append_slash, Path.splitSlashes_of_not_mem h, hne]

/-! ## Places -/

namespace Disk

/-- What leads to a place that is no folder: the file there, or none. -/
def fileAt (d : Disk) (place : Place) : Target :=
  match d.file? place with
  | some content => .file place content
  | none => .missing place

/-- A path under which the file at a place is read and written. -/
def LeadsTo (d : Disk) (s : String) (place : Place) : Prop :=
  ∃ path, Path.parse s = .ok path ∧ path.asFolder = false ∧ d.find path = .ok (d.fileAt place)

variable {d : Disk} {s name : String} {place p q : Place} {target : Target} {content : ByteArray}

theorem fileAt_ne_folder (d : Disk) (place p : Place) : d.fileAt place ≠ .folder p := by
  unfold fileAt
  split <;> simp

theorem fileAt_injective (h : d.fileAt p = d.fileAt q) : p = q := by
  unfold fileAt at h
  split at h <;> split at h <;> cases h <;> rfl

theorem enter_eq (d : Disk) (place : Place) (name : String) : d.enter place name =
    if name = "." then .ok (.folder place)
    else if name = ".." then .ok (.folder place.dropLast)
    else if Path.nameLimit < name.utf8ByteSize then .error .nameTooLong
    else if d.isFolder (place ++ [name]) then .ok (.folder (place ++ [name]))
    else .ok (d.fileAt (place ++ [name])) := by
  cases hfile : d.file? (place ++ [name]) <;> simp [enter, fileAt, hfile]

/-- A name in a folder leads to a folder or to the file of that name. -/
theorem enter_eq_ok (h : d.enter place name = .ok target) :
    (∃ p, target = .folder p) ∨ target = d.fileAt (place ++ [name]) := by
  rw [enter_eq] at h
  split at h
  · exact .inl ⟨_, (Except.ok.inj h).symm⟩
  · split at h
    · exact .inl ⟨_, (Except.ok.inj h).symm⟩
    · split at h
      · cases h
      · split at h
        · exact .inl ⟨_, (Except.ok.inj h).symm⟩
        · exact .inr (Except.ok.inj h).symm

/-- A path leads to a folder or to a file. -/
theorem find_eq_ok {path : Path} (h : d.find path = .ok target) :
    (∃ p, target = .folder p) ∨ ∃ p, target = d.fileAt p := by
  unfold find at h
  cases hin : d.folderOf path with
  | error e =>
    rw [hin] at h
    cases h
  | ok place =>
    rw [hin] at h
    simp only [bind, Except.bind] at h
    split at h
    · exact (enter_eq_ok h).imp_right fun he => ⟨_, he⟩
    · exact .inl ⟨_, (Except.ok.inj h).symm⟩

/-- A file that a name in a folder leads to has that name. -/
theorem eq_append_of_enter (h : d.enter place name = .ok (d.fileAt p)) : p = place ++ [name] := by
  rcases enter_eq_ok h with ⟨p', he⟩ | he
  · exact absurd he (fileAt_ne_folder d p p')
  · exact fileAt_injective he

/-! ### Reading and writing -/

theorem LeadsTo.unique (hp : d.LeadsTo s p) (hq : d.LeadsTo s q) : p = q := by
  obtain ⟨path, hpath, -, hfind⟩ := hp
  obtain ⟨path', hpath', -, hfind'⟩ := hq
  cases hpath.symm.trans hpath'
  exact fileAt_injective (Except.ok.inj (hfind.symm.trans hfind'))

theorem LeadsTo.read_eq (h : d.LeadsTo s place) (hfile : d.file? place = some content) :
    d.read s = .ok content := by
  obtain ⟨path, hpath, hfolder, hfind⟩ := h
  simp [read, hpath, hfind, fileAt, hfile, hfolder, bind, Except.bind, pure, Except.pure]

theorem LeadsTo.write_eq (h : d.LeadsTo s place) (content : ByteArray) :
    d.write s content = .ok (d.put place content) := by
  obtain ⟨path, hpath, hfolder, hfind⟩ := h
  cases hfile : d.file? place <;>
    simp [write, hpath, hfind, fileAt, hfile, hfolder, bind, Except.bind, pure, Except.pure]

theorem exists_leadsTo_of_write (h : (d.write s content).isOk = true) :
    ∃ place, d.LeadsTo s place := by
  cases hpath : Path.parse s with
  | error e =>
    simp [write, hpath, bind, Except.bind, Except.isOk, Except.toBool] at h
  | ok path =>
    cases hfolder : path.asFolder with
    | true =>
      cases hin : d.folderOf path <;>
        simp [write, hpath, hfolder, hin, bind, Except.bind, throw, throwThe,
          MonadExceptOf.throw, Except.isOk, Except.toBool] at h
    | false =>
      cases hfind : d.find path with
      | error e =>
        simp [write, hpath, hfolder, hfind, bind, Except.bind, Except.isOk, Except.toBool] at h
      | ok target =>
        rcases find_eq_ok hfind with ⟨p, rfl⟩ | ⟨p, rfl⟩
        · simp [write, hpath, hfolder, hfind, bind, Except.bind, throw, throwThe,
            MonadExceptOf.throw, Except.isOk, Except.toBool] at h
        · exact ⟨p, path, hpath, hfolder, hfind⟩

/-! ### Writing leads paths nowhere else -/

theorem file?_put_of_ne (h : q ≠ p) : (d.put p content).file? q = d.file? q := by
  have hfilter : ∀ files : List (Place × ByteArray),
      (files.filter (·.1 != p)).lookup q = files.lookup q := by
    intro files
    induction files with
    | nil => rfl
    | cons f files ih =>
      obtain ⟨r, c⟩ := f
      by_cases hr : r = p
      · subst hr
        simp [List.lookup_cons, ih, beq_false_of_ne h]
      · simp [List.lookup_cons, ih, hr]
  simp [file?, put, List.lookup_cons, beq_false_of_ne h, hfilter]

/-- A target as it is on a disk with the same folders. -/
def Target.on (d : Disk) : Target → Target
  | folder p => folder p
  | file p _ | missing p => d.fileAt p

theorem Target.on_fileAt (d d' : Disk) (p : Place) : (d.fileAt p).on d' = d'.fileAt p := by
  cases hfile : d.file? p <;> simp [fileAt, hfile, on]

theorem enter_put (d : Disk) (q place : Place) (content : ByteArray) (name : String) :
    (d.put q content).enter place name = (d.enter place name).map (.on (d.put q content)) := by
  have hfolder (p : Place) : (d.put q content).isFolder p = d.isFolder p := rfl
  rw [enter_eq, enter_eq, hfolder, ← Target.on_fileAt d]
  split
  · rfl
  · split
    · rfl
    · split
      · rfl
      · split <;> rfl

theorem reach_put {names : List String} (h : d.reach place names = .ok p) :
    (d.put q content).reach place names = .ok p := by
  induction names generalizing place with
  | nil => exact h
  | cons name names ih =>
    rw [reach] at h ⊢
    rw [enter_put]
    cases henter : d.enter place name with
    | error e =>
      rw [henter] at h
      cases h
    | ok target =>
      rw [henter] at h
      cases target with
      | folder inner => exact ih h
      | file _ _ => cases h
      | missing _ => cases h

theorem find_put {path : Path} (h : d.find path = .ok (d.fileAt p)) :
    (d.put q content).find path = .ok ((d.put q content).fileAt p) := by
  unfold find at h ⊢
  cases hin : d.folderOf path with
  | error e =>
    rw [hin] at h
    cases h
  | ok place =>
    have hin' : (d.put q content).folderOf path = .ok place := reach_put hin
    rw [hin] at h
    rw [hin']
    simp only [bind, Except.bind] at h ⊢
    split at h
    · rw [enter_put, h, Except.map, Target.on_fileAt]
    · exact absurd (Except.ok.inj h).symm (fileAt_ne_folder d p _)

theorem LeadsTo.put (h : d.LeadsTo s place) (q : Place) (content : ByteArray) :
    (d.put q content).LeadsTo s place := by
  obtain ⟨path, hpath, hfolder, hfind⟩ := h
  exact ⟨path, hpath, hfolder, find_put hfind⟩

/-! ### Files in one folder -/

theorem getLast?_of_leadsTo_joinPath {folder : String} (h : '/' ∉ name.toList) (hne : name ≠ "")
    (hl : d.LeadsTo (joinPath folder name) place) : place.getLast? = some name := by
  obtain ⟨path, hpath, -, hfind⟩ := hl
  have hlast : path.names.getLast? = some name := by
    rw [Path.names_of_parse hpath, getLast?_namesOf_joinPath folder h hne]
  unfold find at hfind
  rw [hlast] at hfind
  cases hin : d.folderOf path with
  | error e =>
    rw [hin] at hfind
    cases hfind
  | ok inner =>
    rw [hin] at hfind
    rw [eq_append_of_enter hfind, List.getLast?_concat]

end Disk

end MapScript.Console
