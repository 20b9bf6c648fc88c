import MapScript.Manifest.Outcome

/-!
# The functions of a manifest do not depend on each other

The outcome of a function is made from the function, its place and the names of all functions:

    (process debug m)[i]? = m.functions[i]?.map fun f => ⟨f.shownName i, f.script debug m.shownNames⟩

and of the names only one matters, that of the function it is the same as, and of this one only
whether it is there (`script_congr`).  So what stands at the other places, and whether it fails, is
seen in the outcome through the set of names at most.
-/

namespace MapScript.Manifest

theorem length_shownNames (m : Manifest) : m.shownNames.length = m.functions.length := by
  simp [shownNames]

theorem getElem?_shownNames (m : Manifest) (i : Nat) :
    m.shownNames[i]? = m.functions[i]?.map (·.shownName i) := by
  simp [shownNames, Function.comp_def]

theorem length_process (debug : Bool) (m : Manifest) :
    (process debug m).length = m.functions.length := by
  simp [process, length_shownNames]

theorem getElem?_process (debug : Bool) (m : Manifest) (i : Nat) :
    (process debug m)[i]? =
      m.functions[i]?.map fun f => ⟨f.shownName i, f.script debug m.shownNames⟩ := by
  rw [process, List.getElem?_zipWith, getElem?_shownNames]
  cases m.functions[i]? <;> rfl

theorem name_mem_shownNames {debug : Bool} {m : Manifest} {o : Outcome}
    (h : o ∈ process debug m) : o.name ∈ m.shownNames := by
  obtain ⟨i, hi⟩ := List.mem_iff_getElem?.mp h
  rw [getElem?_process] at hi
  obtain ⟨f, hf, rfl⟩ := Option.map_eq_some_iff.mp hi
  exact List.mem_iff_getElem?.mpr ⟨i, by rw [getElem?_shownNames, hf]; rfl⟩

/-- A function looks for one name among those of the others, if for any. -/
theorem Function.script_congr (debug : Bool) (f : Function) {names names' : List String}
    (h : ∀ name ∈ f.sameAs, name ∈ names' ↔ name ∈ names) :
    f.script debug names' = f.script debug names := by
  unfold script
  cases f.offset.value with
  | error e => rfl
  | ok offset =>
    cases f.listing with
    | some listing => cases f.sameAs <;> rfl
    | none =>
      cases hs : f.sameAs with
      | none => rfl
      | some name =>
        have hname : names'.contains name = names.contains name := by
          rw [Bool.eq_iff_iff, List.contains_iff_mem, List.contains_iff_mem]
          exact h name hs
        show (if names'.contains name then _ else _) = if names.contains name then _ else _
        rw [hname]

theorem getElem?_process_congr (debug : Bool) {m m' : Manifest} {i : Nat}
    (hf : m'.functions[i]? = m.functions[i]?)
    (hnames : ∀ name, name ∈ m'.shownNames ↔ name ∈ m.shownNames) :
    (process debug m')[i]? = (process debug m)[i]? := by
  rw [getElem?_process, getElem?_process, hf]
  cases m.functions[i]? with
  | none => rfl
  | some f =>
    rw [Option.map_some, Option.map_some, f.script_congr debug fun name _ => hnames name]

/-- Another function under the old name changes nothing at the other places. -/
theorem getElem?_process_set (debug : Bool) {m : Manifest} {i j : Nat} (hij : j ≠ i)
    {f g : Function} (hf : m.functions[j]? = some f) (hg : g.shownName j = f.shownName j) :
    (process debug ⟨m.functions.set j g⟩)[i]? = (process debug m)[i]? := by
  have hnames : shownNames ⟨m.functions.set j g⟩ = m.shownNames := by
    refine List.ext_getElem? fun k => ?_
    rw [getElem?_shownNames, getElem?_shownNames]
    show (m.functions.set j g)[k]?.map _ = _
    by_cases hk : j = k
    · subst hk
      obtain ⟨hlt, -⟩ := List.getElem?_eq_some_iff.mp hf
      rw [List.getElem?_set_self hlt, hf, Option.map_some, Option.map_some, hg]
    · rw [List.getElem?_set_ne hk]
  refine getElem?_process_congr debug (List.getElem?_set_ne hij) fun name => ?_
  rw [hnames]

/-- **Functions do not depend on each other.**  There is one outcome for each function, in order and
under the name of the function; and the outcome is the same in every manifest that has the function
at this place and the same names, whatever else stands under these. -/
theorem process_isolated (debug : Bool) (m : Manifest) :
    (process debug m).length = m.functions.length ∧
    ∀ (i : Nat) (f : Function), m.functions[i]? = some f →
      (∃ o : Outcome, (process debug m)[i]? = some o ∧ o.name = f.shownName i) ∧
      ∀ m' : Manifest, m'.functions[i]? = some f →
        (∀ name, name ∈ m'.shownNames ↔ name ∈ m.shownNames) →
        (process debug m')[i]? = (process debug m)[i]? := by
  refine ⟨length_process debug m, fun i f hf => ⟨?_, fun m' hf' hnames => ?_⟩⟩
  · rw [getElem?_process, hf]
    exact ⟨_, rfl, rfl⟩
  · exact getElem?_process_congr debug (hf'.trans hf.symm) hnames

/-- The second function is the same as the first, which has a script. -/
def twins : Manifest :=
  ⟨[⟨some "main", none, none, .number 0, some "RETURN", none⟩,
    ⟨none, some .model, some 3, .text "1900", none, some "main"⟩,
    ⟨none, none, none, .number 7, some "RESET", none⟩]⟩

/-- The same function among others, of which none has a script. -/
def strangers : Manifest :=
  ⟨[⟨some "function_2", none, none, .text "zz", none, some "nobody"⟩,
    ⟨none, some .model, some 3, .text "1900", none, some "main"⟩,
    ⟨some "main", none, none, .number 9, some "GOTO 1", none⟩,
    ⟨some "main", none, none, .number 9, none, none⟩]⟩

theorem process_isolated_twins : (process false twins).length = 3 ∧
    (process false strangers)[1]? = (process false twins)[1]? ∧
    (process false twins)[1]?.bind (·.result.toOption) = some "-- alias of main at 1900" := by
  refine ⟨(process_isolated false twins).1, ?_, by decide +kernel⟩
  refine ((process_isolated false twins).2 1 _ rfl).2 strangers rfl fun name => ?_
  have hnames : twins.shownNames = ["main", "model_3_touch", "function_2"] ∧
      strangers.shownNames = ["function_2", "model_3_touch", "main", "main"] := by decide +kernel
  rw [hnames.1, hnames.2]
  simp only [List.mem_cons, List.not_mem_nil]
  grind

end MapScript.Manifest
