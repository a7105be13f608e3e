import Corridor.Proofs.Sections
import Corridor.Settings.File

/-!
# Documents That Give Settings

The settings of a document are those of its section, and a document that is no map is refused. But
a value that counts as absent is taken for an empty map before that, so false, zero, the empty text
and the empty list give the presets like a document that holds nothing.

Which values a reader of documents gives is left open: a `Reader` may know more kinds of them than
`Datum` does, such as dates and sets. What matters is which of them are maps, which count as
absent, and what settings a section gives.

## Main results

* `Reader.ofDocument_of_entries`: a map is read for its section, even if it is empty.
* `Reader.ofDocument_eq_iff`: how documents end.
* `load_ends`: how the settings file of every text that can be read ends.
-/

namespace Corridor

/-- Only a text is the same key as a text. -/
theorem Datum.sameKey_text_iff {d : Datum} {s : String} :
    d.sameKey (.text s) = true ↔ d = .text s := by
  cases d <;> simp [sameKey, quantity?]

namespace Settings

/-- A reader of documents: the values that it gives, what is asked of them, and the settings of a
section. -/
structure Reader (V : Type) where
  read : String → Except Fault V
  null : V
  /-- Whether a value counts as absent. -/
  isVoid : V → Bool
  /-- The entries of a map. -/
  entries? : V → Option (List (V × V))
  /-- Whether a key names the section. -/
  namesSection : V → Bool
  ofSection : V → Except Fault Settings
  isVoid_null : isVoid null = true
  entries?_null : entries? null = none
  /-- A map counts as absent if it is empty. -/
  isVoid_iff : ∀ {v es}, entries? v = some es → (isVoid v = true ↔ es = [])
  ofSection_null : ofSection null = .ok preset

namespace Reader

variable {V : Type} (r : Reader V)

/-- The value of the section in a map; null if there is none. -/
def sectionOf (es : List (V × V)) : V :=
  ((es.find? fun e => r.namesSection e.1).map (·.2)).getD r.null

/-- The settings of a document. -/
def ofDocument (path : String) (v : V) : Except Fault Settings :=
  if r.isVoid v then .ok preset
  else match r.entries? v with
    | some es => r.ofSection (r.sectionOf es)
    | none => .error (.documentNotMap path)

/-- The settings of the file at a path. -/
def load (path : String) : Option String → Except Fault Settings
  | none => .error (.fileMissing path)
  | some text => do r.ofDocument path (← r.read text)

/-- The reader of settings files. -/
def yaml : Reader Datum where
  read := Yaml.read
  null := .null
  isVoid := Datum.isVoid
  entries?
    | .map es => some es
    | _ => none
  namesSection key := key.sameKey (.text "ranking")
  ofSection := Settings.ofSection
  isVoid_null := rfl
  entries?_null := rfl
  isVoid_iff {v es} h := by
    cases v with
    | map es' =>
        obtain rfl := Option.some.inj h
        exact List.isEmpty_iff
    | _ => cases h
  ofSection_null := rfl

theorem read_yaml : yaml.read = Yaml.read := rfl

/-- The section is named by one key. -/
theorem namesSection_yaml_iff {key : Datum} :
    yaml.namesSection key = true ↔ key = .text "ranking" := Datum.sameKey_text_iff

/-- **Settings files are loaded by the reader of YAML.** -/
theorem load_eq_yaml (path : String) (text? : Option String) :
    Settings.load path text? = yaml.load path text? := by
  cases text? with
  | none => rfl
  | some text =>
      refine congrArg (Yaml.read text >>= ·) (funext fun d => ?_)
      cases d with
      | map es => rfl
      | _ => rfl

/-! ### Sections -/

/-- The value of the section is what its first entry has, or null if there is no entry. -/
inductive Finds : List (V × V) → V → Prop
  | first {before after : List (V × V)} {k v : V}
      (hbefore : ∀ e ∈ before, r.namesSection e.1 = false) (hk : r.namesSection k = true) :
      Finds (before ++ (k, v) :: after) v
  | absent {es : List (V × V)} (h : ∀ e ∈ es, r.namesSection e.1 = false) : Finds es r.null

theorem finds_iff {es : List (V × V)} {v : V} : r.Finds es v ↔ r.sectionOf es = v := by
  rw [sectionOf]
  constructor
  · rintro (⟨hbefore, hk⟩ | h)
    · have hnone := List.find?_eq_none.mpr fun e he => Bool.eq_false_iff.mp (hbefore e he)
      simp [List.find?_append, hnone, hk]
    · rw [List.find?_eq_none.mpr (by simpa using h)]
      rfl
  · rintro rfl
    cases hfind : es.find? fun e => r.namesSection e.1 with
    | none => exact .absent (by simpa using hfind)
    | some e =>
        obtain ⟨hk, before, after, rfl, hbefore⟩ := List.find?_eq_some_iff_append.mp hfind
        exact .first (by simpa using hbefore) hk

/-- Only the entries of the section matter. -/
theorem sectionOf_filter (es : List (V × V)) :
    r.sectionOf (es.filter fun e => r.namesSection e.1) = r.sectionOf es := by
  rw [sectionOf, sectionOf, ← List.head?_filter, ← List.head?_filter, List.filter_filter]
  simp only [Bool.and_self]

/-! ### Ends -/

/-- A map is read for its section. An empty one counts as absent, which comes to the same. -/
theorem ofDocument_of_entries {path : String} {v : V} {es : List (V × V)}
    (h : r.entries? v = some es) : r.ofDocument path v = r.ofSection (r.sectionOf es) := by
  rw [ofDocument, h]
  split_ifs with hvoid
  · obtain rfl := (r.isVoid_iff h).mp hvoid
    exact r.ofSection_null.symm
  · rfl

/-- How a document ends: with the presets if it holds nothing, with the settings of its section if
it is a map, and otherwise it passes for nothing if its value counts as absent, or is refused. -/
inductive Ends (path : String) : V → Except Fault Settings → Prop
  | nothing : Ends path r.null (.ok preset)
  | map {v u : V} {es : List (V × V)} (h : r.entries? v = some es) (hu : r.Finds es u) :
      Ends path v (r.ofSection u)
  | passes {v : V} (hnull : v ≠ r.null) (h : r.entries? v = none) (hvoid : r.isVoid v = true) :
      Ends path v (.ok preset)
  | refused {v : V} (hnull : v ≠ r.null) (h : r.entries? v = none) (hvoid : r.isVoid v = false) :
      Ends path v (.error (.documentNotMap path))

/-- **How documents end.** -/
theorem ofDocument_eq_iff {path : String} {v : V} {o : Except Fault Settings} :
    r.ofDocument path v = o ↔ r.Ends path v o := by
  constructor
  · rintro rfl
    cases h : r.entries? v with
    | some es =>
        rw [r.ofDocument_of_entries h]
        exact .map h (r.finds_iff.mpr rfl)
    | none =>
        rw [ofDocument, h]
        by_cases hvoid : r.isVoid v = true
        · rw [if_pos hvoid]
          by_cases hnull : v = r.null
          · rw [hnull]
            exact .nothing
          · exact .passes hnull h hvoid
        · rw [if_neg hvoid]
          refine .refused (fun hnull => hvoid ?_) h (Bool.eq_false_iff.mpr hvoid)
          rw [hnull, r.isVoid_null]
  · intro h
    cases h with
    | nothing => rw [ofDocument, if_pos r.isVoid_null]
    | map h hu => rw [r.ofDocument_of_entries h, r.finds_iff.mp hu]
    | passes _ _ hvoid => rw [ofDocument, if_pos hvoid]
    | refused _ h hvoid => rw [ofDocument, if_neg (Bool.eq_false_iff.mp hvoid), h]

/-- The data that pass for nothing. -/
theorem passes_yaml_iff {d : Datum} :
    (d ≠ .null ∧ yaml.entries? d = none ∧ yaml.isVoid d = true) ↔
      d = .flag false ∨ d = .whole 0 ∨ (∃ x, d = .real x ∧ (x == 0) = true) ∨ d = .text "" ∨
        d = .list [] := by
  cases d <;> simp [yaml, Datum.isVoid]

end Reader

/-- **How settings files end.** The file is read by the reader of YAML. Its section is `ranking`,
and its values that are neither null nor maps pass for nothing if they are false, zero, or an empty
text or list. Whatever the reader, a document of null gives the presets, and a map gives the
settings of its section, whatever else it holds; a value that is neither gives the presets if it
passes for nothing, and else a fault of settings. -/
theorem load_ends (path : String) :
    (∀ text?, load path text? = Reader.yaml.load path text?) ∧
    (∀ key, Reader.yaml.namesSection key = true ↔ key = .text "ranking") ∧
    (∀ d : Datum, (d ≠ .null ∧ Reader.yaml.entries? d = none ∧ Reader.yaml.isVoid d = true) ↔
      d = .flag false ∨ d = .whole 0 ∨ (∃ x, d = .real x ∧ (x == 0) = true) ∨ d = .text "" ∨
        d = .list []) ∧
    (Fault.documentNotMap path).kind = .settings ∧
    ∀ (V : Type) (r : Reader V) (text : String) (v : V), r.read text = .ok v →
      (∀ o, r.load path (some text) = o ↔ r.Ends path v o) ∧
      ∀ v' es es', r.entries? v = some es → r.entries? v' = some es' →
        (es.filter fun e => r.namesSection e.1) = (es'.filter fun e => r.namesSection e.1) →
        ∀ o, r.Ends path v o ↔ r.Ends path v' o := by
  refine ⟨Reader.load_eq_yaml path, fun _ => Reader.namesSection_yaml_iff,
    fun _ => Reader.passes_yaml_iff, rfl, ?_⟩
  intro V r text v hread
  have hload : r.load path (some text) = r.ofDocument path v := by
    rw [Reader.load, hread]
    rfl
  refine ⟨fun o => hload ▸ r.ofDocument_eq_iff, fun v' es es' h h' hsame o => ?_⟩
  have hsection : r.sectionOf es = r.sectionOf es' := by
    rw [← r.sectionOf_filter es, hsame, r.sectionOf_filter es']
  rw [← r.ofDocument_eq_iff, ← r.ofDocument_eq_iff, r.ofDocument_of_entries h,
    r.ofDocument_of_entries h', hsection]

/-- A text is refused. -/
theorem load_ends_refused :
    Yaml.read "a" = .ok (.text "a") ∧
    load defaultPath (some "a") = .error (.documentNotMap defaultPath) := by
  have hread : Yaml.read "a" = .ok (.text "a") := by
    have h : (match Yaml.read "a" with
        | .error _ => false
        | .ok d => d.sameKey (.text "a")) = true := by decide +kernel
    generalize Yaml.read "a" = read at h ⊢
    cases read with
    | error f => cases h
    | ok d => exact congrArg Except.ok (Datum.sameKey_text_iff.mp h)
  obtain ⟨hload, -, -, -, hends⟩ := load_ends defaultPath
  obtain ⟨hiff, -⟩ := hends Datum .yaml "a" _ (Reader.read_yaml ▸ hread)
  exact ⟨hread, (hload _).trans ((hiff _).mpr (.refused nofun rfl rfl))⟩

/-- A list is taken for an empty document if it is empty. -/
theorem load_emptyList :
    Yaml.read "[]" = .ok (.list []) ∧ load defaultPath (some "[]") = .ok preset := by
  have hread : Yaml.read "[]" = .ok (.list []) := by
    have h : (match Yaml.read "[]" with
        | .error _ => false
        | .ok d => d.kindName == "list" && d.isVoid) = true := by decide +kernel
    generalize Yaml.read "[]" = read at h ⊢
    cases read with
    | error f => cases h
    | ok d =>
        cases d with
        | list items =>
            obtain ⟨-, hempty⟩ := Bool.and_eq_true_iff.mp h
            rw [List.isEmpty_iff.mp hempty]
        | _ => simp [Datum.kindName] at h
  refine ⟨hread, ?_⟩
  rw [load, hread]
  rfl

end Settings

end Corridor
