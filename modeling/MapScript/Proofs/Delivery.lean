import Mathlib.Data.List.Nodup
import MapScript.Proofs.Batch
import MapScript.Proofs.Disk
import MapScript.Proofs.Runs

/-!
# What a batch leaves in its folder

A batch writes one file for each function that has a script, named after the function, one after
the other.  Names are not compared: the file of a name holds the last script under that name
(`run_mapM_deliver`).  So a folder that can be written to keeps all scripts if and only if no two
functions of one name have different ones (`runBatch_keeps_iff`).  How manifests are written is of
no account: of the reader only the manifest that it finds in the file is needed (`Delivers.parsed`).
-/

namespace MapScript.Console

open Manifest (Outcome)

/-- The file that the script of a name is written to. -/
def scriptPath (folder name : String) : String := joinPath folder (name ++ ".ws")

/-- A script as it is stored. -/
def scriptBytes (script : String) : ByteArray := (script ++ "\n").toUTF8

theorem scriptBytes_injective {script script' : String}
    (h : scriptBytes script = scriptBytes script') : script = script' :=
  (String.append_left_inj "\n").mp (String.toByteArray_inj.mp h)

/-! ## The last script under a name -/

/-- The last script under a name. -/
def lastScript? (name : String) : List Outcome → Option String
  | [] => none
  | o :: rest => (lastScript? name rest).or (if o.name = name then o.result.toOption else none)

/-- It is the script of an outcome with the name. -/
theorem exists_of_lastScript? {name last : String} {outcomes : List Outcome}
    (h : lastScript? name outcomes = some last) :
    ∃ o ∈ outcomes, o.name = name ∧ o.result = .ok last := by
  induction outcomes with
  | nil => cases h
  | cons o rest ih =>
    rw [lastScript?, Option.or_eq_some_iff] at h
    rcases h with h | ⟨-, h⟩
    · obtain ⟨o', ho', hname, hres⟩ := ih h
      exact ⟨o', List.mem_cons_of_mem _ ho', hname, hres⟩
    · split at h
      · next hname =>
        refine ⟨o, List.mem_cons_self, hname, ?_⟩
        cases hres : o.result with
        | error e => simp [hres, Except.toOption] at h
        | ok script =>
          rw [hres] at h
          exact congrArg _ (Option.some.inj h)
      · cases h

theorem exists_lastScript? {outcomes : List Outcome} {o : Outcome} (ho : o ∈ outcomes)
    {script : String} (hres : o.result = .ok script) :
    ∃ last, lastScript? o.name outcomes = some last := by
  induction outcomes with
  | nil => cases ho
  | cons o' rest ih =>
    rw [lastScript?]
    rcases List.mem_cons.mp ho with rfl | ho
    · rw [if_pos rfl, hres]
      cases lastScript? o.name rest with
      | none => exact ⟨script, rfl⟩
      | some last => exact ⟨last, rfl⟩
    · obtain ⟨last, hlast⟩ := ih ho
      exact ⟨last, by rw [hlast, Option.some_or]⟩

/-! ## One outcome -/

theorem run_onDisk {s : Session} {step : Disk → Except FileError Disk} {d : Disk}
    (h : step s.disk = .ok d) : (Session.onDisk step).run s =
      (.ok (), { s with disk := d }) := by
  unfold Session.onDisk
  rw [StateT.run_bind]
  simp only [StateT.run_get, pure_bind, h]
  rfl

section

variable (folder : String) {o : Outcome} {s : Session}

/-- An outcome without a script leaves the disk as it is. -/
theorem run_deliver_error {e : Manifest.Failure} (h : o.result = .error e) (s : Session) :
    ∃ s', (deliver (some folder) o : Run (StateM Session) Bool).run s = (.ok false, s') ∧
      s'.disk = s.disk := by
  unfold deliver
  rw [h]
  exact ⟨_, rfl, rfl⟩

theorem run_deliver_ok {script : String} (h : o.result = .ok script) {place : Place}
    (hl : s.disk.LeadsTo (scriptPath folder o.name) place) :
    ∃ s', (deliver (some folder) o : Run (StateM Session) Bool).run s = (.ok true, s') ∧
      s'.disk = s.disk.put place (scriptBytes script) := by
  have hwrite : (Session.onDisk (·.write (scriptPath folder o.name) (scriptBytes script))).run s =
      (.ok (), _) := run_onDisk (hl.write_eq _)
  unfold deliver
  rw [h]
  exact ⟨_, run_lift_bind hwrite, rfl⟩

end

/-! ## All outcomes, one after the other -/

theorem name_eq_of_leadsTo {d : Disk} {folder name name' : String} {place : Place}
    (hn : '/' ∉ name.toList) (hn' : '/' ∉ name'.toList)
    (hl : d.LeadsTo (scriptPath folder name) place)
    (hl' : d.LeadsTo (scriptPath folder name') place) : name = name' := by
  have hfile {name : String} (h : '/' ∉ name.toList) :
      '/' ∉ (name ++ ".ws").toList ∧ name ++ ".ws" ≠ "" := by
    constructor
    · simpa using h
    · intro he
      simpa using congrArg String.toList he
  have hlast := Disk.getLast?_of_leadsTo_joinPath (hfile hn).1 (hfile hn).2 hl
  rw [Disk.getLast?_of_leadsTo_joinPath (hfile hn').1 (hfile hn').2 hl', Option.some.injEq] at hlast
  exact ((String.append_left_inj ".ws").mp hlast).symm

/-- The file of a name holds the last script under that name, or what it held before. -/
theorem run_mapM_deliver {folder : String} {outcomes : List Outcome} {s : Session}
    (hplain : ∀ o ∈ outcomes, '/' ∉ o.name.toList)
    (hw : ∀ o ∈ outcomes, ∀ script, o.result = .ok script →
      ∃ place, s.disk.LeadsTo (scriptPath folder o.name) place) :
    ∃ s', (outcomes.mapM (deliver (some folder)) : Run (StateM Session) (List Bool)).run s =
        (.ok (outcomes.map (·.result.isOk)), s') ∧
      ∀ name place, '/' ∉ name.toList → s.disk.LeadsTo (scriptPath folder name) place →
        s'.disk.LeadsTo (scriptPath folder name) place ∧
        s'.disk.file? place =
          ((lastScript? name outcomes).map scriptBytes).or (s.disk.file? place) := by
  induction outcomes generalizing s with
  | nil => exact ⟨s, rfl, fun name place _ hl => ⟨hl, rfl⟩⟩
  | cons o rest ih =>
    obtain ⟨hpo, hplain⟩ := List.forall_mem_cons.mp hplain
    obtain ⟨hwo, hw⟩ := List.forall_mem_cons.mp hw
    rw [List.mapM_cons]
    cases hres : o.result with
    | error e =>
      obtain ⟨s1, hrun, hdisk⟩ := run_deliver_error folder hres s
      rw [← hdisk] at hw
      obtain ⟨s', hrest, hfiles⟩ := ih hplain hw
      refine ⟨s', ?_, fun name place hn hl => ?_⟩
      · rw [run_bind_ok hrun, run_bind_ok hrest, List.map_cons, hres]
        rfl
      · rw [← hdisk] at hl ⊢
        simpa [lastScript?, hres, Except.toOption] using hfiles name place hn hl
    | ok script =>
      obtain ⟨q, hq⟩ := hwo script hres
      obtain ⟨s1, hrun, hdisk⟩ := run_deliver_ok folder hres hq
      have hput {name : String} {place : Place}
          (hl : s.disk.LeadsTo (scriptPath folder name) place) :
          s1.disk.LeadsTo (scriptPath folder name) place := by
        rw [hdisk]
        exact hl.put q _
      obtain ⟨s', hrest, hfiles⟩ := ih hplain fun o' ho' script' hres' =>
        (hw o' ho' script' hres').imp fun _ => hput
      refine ⟨s', ?_, fun name place hn hl => ?_⟩
      · rw [run_bind_ok hrun, run_bind_ok hrest, List.map_cons, hres]
        rfl
      · obtain ⟨hl', hfile⟩ := hfiles name place hn (hput hl)
        refine ⟨hl', hfile.trans ?_⟩
        rw [hdisk, lastScript?, hres]
        by_cases hname : o.name = name
        · subst hname
          obtain rfl := hl.unique hq
          rw [Disk.file?_put_self, if_pos rfl]
          cases lastScript? o.name rest <;> rfl
        · have hne : place ≠ q := fun he =>
            hname (name_eq_of_leadsTo hpo hn (he ▸ hq) hl)
          rw [Disk.file?_put_of_ne hne, if_neg hname, Option.or_none]

/-! ## What is kept -/

/-- Each script is in the file of its name. -/
def Kept (d : Disk) (folder : String) (outcomes : List Outcome) : Prop :=
  ∀ o ∈ outcomes, ∀ script, o.result = .ok script →
    d.read (scriptPath folder o.name) = .ok (scriptBytes script)

/-- Scripts under one name are the same. -/
def Agree (outcomes : List Outcome) : Prop :=
  ∀ o ∈ outcomes, ∀ o' ∈ outcomes, ∀ script script', o.result = .ok script →
    o'.result = .ok script' → o.name = o'.name → script = script'

theorem agree_of_nodup {outcomes : List Outcome} (h : (outcomes.map (·.name)).Nodup) :
    Agree outcomes := by
  intro o ho o' ho' script script' hres hres' hname
  obtain rfl := List.inj_on_of_nodup_map h ho ho' hname
  exact Except.ok.inj (hres.symm.trans hres')

/-! ## Batches -/

section

variable {read : Manifest.Reader} {s : Session} {manifest folder : String} {debug : Bool}
  {m : Manifest}

/-- What a batch needs.  The file is a text in which the reader finds the manifest, no name leads
out of the folder, the folder can be made, and each script can be written in it to a file with the
name of the function. -/
structure Delivers (read : Manifest.Reader) (s : Session) (manifest folder : String) (debug : Bool)
    (m : Manifest) : Prop where
  parsed : ∃ bytes text, s.disk.read manifest = .ok bytes ∧ String.fromUTF8? bytes = some text ∧
    read text = .ok m
  plain : ∀ name ∈ m.shownNames, '/' ∉ name.toList
  written : ∃ d, s.disk.makeFolders folder = .ok d ∧ ∀ o ∈ m.process debug, ∀ script,
    o.result = .ok script →
      (d.write (scriptPath folder o.name) (scriptBytes script)).isOk = true

theorem run_readText {path text : String} {bytes : ByteArray}
    (hread : s.disk.read path = .ok bytes) (htext : String.fromUTF8? bytes = some text) :
    (readText path : Run (StateM Session) String).run s = (.ok text, s) := by
  have hbytes : (readBytes path : Run (StateM Session) ByteArray).run s = (.ok bytes, s) := by
    have hfile : (Host.readFile path : StateM Session _).run s = (s.disk.read path, s) := rfl
    unfold readBytes
    rw [run_lift_bind hfile, hread]
    rfl
  unfold readText
  rw [run_bind_ok hbytes, htext]
  rfl

theorem run_readManifest {text : String} {bytes : ByteArray}
    (hread : s.disk.read manifest = .ok bytes) (htext : String.fromUTF8? bytes = some text)
    (hparse : read text = .ok m) :
    (readManifest read manifest : Run (StateM Session) Manifest).run s = (.ok m, s) := by
  unfold readManifest
  rw [run_bind_ok (run_readText hread htext), hparse]
  rfl

theorem contains_false_isOk (outcomes : List Outcome) :
    (outcomes.map (·.result.isOk)).contains false = !outcomes.all (·.result.isOk) := by
  induction outcomes with
  | nil => rfl
  | cons o rest ih =>
    rw [List.map_cons, List.contains_cons, List.all_cons, ih]
    cases o.result.isOk <;> simp

theorem run_runBatch (h : Delivers read s manifest folder debug m) :
    ∃ s', (runBatch read manifest (some folder) debug : Run (StateM Session) Unit).run s =
        (if (m.process debug).all (·.result.isOk) then .ok () else .error 1, s') ∧
      ∀ o ∈ m.process debug, ∀ script, o.result = .ok script →
        ∃ last, lastScript? o.name (m.process debug) = some last ∧
          s'.disk.read (scriptPath folder o.name) = .ok (scriptBytes last) := by
  obtain ⟨⟨bytes, text, hread, htext, hparse⟩, hnames, d, hmade, hwritten⟩ := h
  have hplain : ∀ o ∈ m.process debug, '/' ∉ o.name.toList :=
    fun o ho => hnames o.name (Manifest.name_mem_shownNames ho)
  have hleads : ∀ o ∈ m.process debug, ∀ script, o.result = .ok script →
      ∃ place, d.LeadsTo (scriptPath folder o.name) place :=
    fun o ho script hres => Disk.exists_leadsTo_of_write (hwritten o ho script hres)
  have hmake : (Session.onDisk (·.makeFolders folder)).run s = (.ok (), { s with disk := d }) :=
    run_onDisk hmade
  obtain ⟨s', hrun, hfiles⟩ := run_mapM_deliver (s := { s with disk := d }) hplain hleads
  refine ⟨s', ?_, fun o ho script hres => ?_⟩
  · unfold runBatch
    rw [run_bind_ok (run_readManifest hread htext hparse)]
    refine (run_lift_bind hmake).trans ((run_bind_ok hrun).trans ?_)
    rw [contains_false_isOk]
    cases (m.process debug).all (·.result.isOk) <;> rfl
  · obtain ⟨place, hl⟩ := hleads o ho script hres
    obtain ⟨last, hlast⟩ := exists_lastScript? ho hres
    obtain ⟨hl', hfile⟩ := hfiles o.name place (hplain o ho) hl
    rw [hlast] at hfile
    exact ⟨last, hlast, hl'.read_eq hfile⟩

/-- **A folder keeps all scripts of a batch if and only if those under one name are the same**, with
any reader of manifests.  In any case the exit status only says whether all functions have a script,
and the file of each that has one holds the last script under its name. -/
theorem runBatch_keeps_iff (h : Delivers read s manifest folder debug m) :
    ∃ s', (runBatch read manifest (some folder) debug : Run (StateM Session) Unit).run s =
        (if (m.process debug).all (·.result.isOk) then .ok () else .error 1, s') ∧
      (∀ o ∈ m.process debug, ∀ script, o.result = .ok script →
        ∃ last, lastScript? o.name (m.process debug) = some last ∧
          s'.disk.read (scriptPath folder o.name) = .ok (scriptBytes last)) ∧
      (Kept s'.disk folder (m.process debug) ↔ Agree (m.process debug)) := by
  obtain ⟨s', hrun, hlast⟩ := run_runBatch h
  refine ⟨s', hrun, hlast, fun hkept => ?_, fun hagree => ?_⟩
  · intro o ho o' ho' script script' hres hres' hname
    have h1 := hkept o ho script hres
    have h2 := hkept o' ho' script' hres'
    rw [← hname, h1] at h2
    exact scriptBytes_injective (Except.ok.inj h2)
  · intro o ho script hres
    obtain ⟨last, hlast', hread⟩ := hlast o ho script hres
    obtain ⟨o', ho', hname, hres'⟩ := exists_of_lastScript? hlast'
    rw [hread, hagree o ho o' ho' script last hres hres' hname.symm]

end

/-- A manifest of two functions, the second without a name of its own. -/
def pair (name : String) : Manifest :=
  ⟨[⟨some name, none, none, .number 0, some "RETURN", none⟩,
    ⟨none, none, none, .number 0, some "STOP", none⟩]⟩

/-- The text of such a manifest, in YAML. -/
def pairText (name : String) : String :=
  "functions:\n- name: " ++ name ++ "\n  offset: 0\n  listing: RETURN\n" ++
    "- offset: 0\n  listing: STOP\n"

/-- A reader of YAML, as far as it is needed for two of these texts. -/
def readPair : Manifest.Reader := fun text =>
  match ["main", "function_1"].find? (pairText · = text) with
  | some name => .ok (pair name)
  | none => .error "unknown text"

def pairSession (name : String) : Session :=
  ⟨.ofFiles [("pair.yaml", (pairText name).toUTF8)], .empty, ""⟩

theorem fromUTF8?_toUTF8 (s : String) : String.fromUTF8? s.toUTF8 = some s :=
  dif_pos s.isValidUTF8

theorem pairText_injective {name name' : String} (h : pairText name = pairText name') :
    name = name' := by
  unfold pairText at h
  simpa [String.append_assoc] using h

theorem readPair_pairText {name : String} (h : name ∈ ["main", "function_1"]) :
    readPair (pairText name) = .ok (pair name) := by
  unfold readPair
  cases hfind : ["main", "function_1"].find? (pairText · = pairText name) with
  | none => simpa using List.find?_eq_none.mp hfind name h
  | some found =>
    have hsame : pairText found = pairText name := by simpa using List.find?_some hfind
    rw [pairText_injective hsame]

theorem delivers_pair {name : String} (hmem : name ∈ ["main", "function_1"])
    (hread : (pairSession name).disk.read "pair.yaml" = .ok (pairText name).toUTF8)
    (hplain : ∀ n ∈ (pair name).shownNames, '/' ∉ n.toList)
    (hprocess : (pair name).process false =
      [⟨name, .ok "return"⟩, ⟨"function_1", .ok "Entity.stop()"⟩])
    (hwrite : ∃ d ∈ ((pairSession name).disk.makeFolders "out").toOption,
      (d.write (scriptPath "out" name) (scriptBytes "return")).isOk = true ∧
        (d.write (scriptPath "out" "function_1") (scriptBytes "Entity.stop()")).isOk = true) :
    Delivers readPair (pairSession name) "pair.yaml" "out" false (pair name) where
  parsed := ⟨_, _, hread, fromUTF8?_toUTF8 _, readPair_pairText hmem⟩
  plain := hplain
  written := by
    obtain ⟨d, hd, hfirst, hsecond⟩ := hwrite
    have hmade : (pairSession name).disk.makeFolders "out" = .ok d := by
      cases hm : (pairSession name).disk.makeFolders "out" with
      | error e =>
        rw [hm] at hd
        cases hd
      | ok d' =>
        rw [hm] at hd
        exact congrArg _ (Option.some.inj hd)
    refine ⟨d, hmade, fun o ho script hres => ?_⟩
    rw [hprocess] at ho
    simp only [List.mem_cons, List.not_mem_nil, or_false] at ho
    rcases ho with rfl | rfl
    · cases hres
      exact hfirst
    · cases hres
      exact hsecond

/-- A folder keeps the scripts of two names, but not of a name that is also the one of a place. -/
theorem runBatch_keeps_iff_pair :
    (∃ s', (runBatch readPair "pair.yaml" (some "out") false : Run (StateM Session) Unit).run
        (pairSession "main") = (.ok (), s') ∧
      Kept s'.disk "out" ((pair "main").process false)) ∧
    ∃ s', (runBatch readPair "pair.yaml" (some "out") false : Run (StateM Session) Unit).run
        (pairSession "function_1") = (.ok (), s') ∧
      ¬ Kept s'.disk "out" ((pair "function_1").process false) := by
  have hmain : (pair "main").process false =
      [⟨"main", .ok "return"⟩, ⟨"function_1", .ok "Entity.stop()"⟩] := rfl
  have hclash : (pair "function_1").process false =
      [⟨"function_1", .ok "return"⟩, ⟨"function_1", .ok "Entity.stop()"⟩] := rfl
  constructor
  · obtain ⟨s', hrun, -, hiff⟩ := runBatch_keeps_iff
      (delivers_pair (by simp) (by rfl) (by decide) hmain (by decide +kernel))
    refine ⟨s', hrun, hiff.mpr ?_⟩
    rw [hmain]
    exact agree_of_nodup (by decide)
  · obtain ⟨s', hrun, -, hiff⟩ := runBatch_keeps_iff
      (delivers_pair (by simp) (by rfl) (by decide) hclash (by decide +kernel))
    refine ⟨s', hrun, fun hkept => ?_⟩
    have hagree := hiff.mp hkept
    rw [hclash] at hagree
    have hsame : "return" = "Entity.stop()" :=
      hagree _ List.mem_cons_self _ (List.mem_cons_of_mem _ List.mem_cons_self) _ _ rfl rfl rfl
    exact absurd hsame (by decide)

end MapScript.Console
