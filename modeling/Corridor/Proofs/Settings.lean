import Corridor.Proofs.Run
import Corridor.Settings.Basic
import Mathlib.Data.Int.Init
import Mathlib.Data.List.Basic

/-!
# Settings and Their Changes

Settings are accepted or refused by rules, and each rule looks at the value of one field alone. The
fault of a draft is that of the first rule it breaks, and a draft that breaks none is kept as it was
given. A change of settings sets some fields of settings that were accepted before, so only the
fields it sets can break a rule: whether it is accepted, and with what fault it is refused, depends
on the change alone.

## Main results

* `verdict_ofDraft`: the fault of a draft is that of the first rule it breaks.
* `get_of_ofDraft`: accepted settings have the values of their draft.
* `verdict_override`: the fault of a change does not depend on the settings that it changes.
* `get_foldl_changed`: each field has the value of the last accepted change that set it.
* `configured_by_changes`: the settings after any sequence of changes.
-/

namespace Corridor.Settings

/-! ### Names of fields -/

theorem Field.ofName?_eq_some_iff {name : String} {f : Field} :
    Field.ofName? name = some f ↔ f.name = name := by
  constructor
  · intro h
    simpa using List.find?_some h
  · rintro rfl
    cases f <;> rfl

/-! ### Rules -/

/-- Whether a result is a fault, and which one, with all that is not a fault left out. -/
def verdict {α : Type} (r : Except Fault α) : Except Fault Unit := r.map fun _ => ()

/-- A rule about the value of one field. -/
structure Rule where
  field : Field
  check : Datum → Except Fault Unit

namespace Rule

/-- The field has to be an integer. -/
def whole (f : Field) : Rule := ⟨f, fun v => verdict (wholeOf (fun _ => v) f)⟩

/-- The field has to be positive and finite. -/
def limit (f : Field) : Rule := ⟨f, fun v => verdict (limitOf (fun _ => v) f)⟩

/-- The integer of the field has to be positive and in the range of doubles. -/
def count (f : Field) : Rule := ⟨f, fun v => verdict (wholeOf (fun _ => v) f >>= countOf f)⟩

/-- The integer of the field must not be negative. -/
def natural (f : Field) : Rule := ⟨f, fun v => verdict (wholeOf (fun _ => v) f >>= naturalOf f)⟩

/-- The field has to name a score. -/
def score : Rule := ⟨.sortField, fun v => verdict (scoreOf v)⟩

end Rule

/-- All rules, in the order in which they are tried. -/
def rules : List Rule :=
  [.whole .gridDivisions, .whole .routeDivisions, .whole .skip, .whole .maxResults,
   .limit .maxGap, .limit .maxSpeed, .limit .maxTurnRate,
   .count .gridDivisions, .count .routeDivisions, .natural .skip, .natural .maxResults, .score]

/-- The fault of the first of the listed rules that a draft breaks. -/
def inspect (d : Draft) : List Rule → Except Fault Unit
  | [] => .ok ()
  | r :: rs => do
      r.check (d r.field)
      inspect d rs

/-- Drafts that no rule tells apart have the same fault. -/
theorem inspect_congr {d d' : Draft} {rs : List Rule}
    (h : ∀ r ∈ rs, r.check (d r.field) = r.check (d' r.field)) : inspect d rs = inspect d' rs := by
  induction rs with
  | nil => rfl
  | cons r rs ih =>
      obtain ⟨hr, hrs⟩ := List.forall_mem_cons.mp h
      rw [inspect, inspect, hr, ih hrs]

/-- A draft without a fault breaks no rule. -/
theorem check_of_inspect {d : Draft} {rs : List Rule} (h : inspect d rs = .ok ()) :
    ∀ r ∈ rs, r.check (d r.field) = .ok () := by
  induction rs with
  | nil => simp
  | cons r rs ih =>
      obtain ⟨_, hr, hrs⟩ := Run.bind_eq_ok.mp h
      exact List.forall_mem_cons.mpr ⟨hr, ih hrs⟩

/-- The fault of two steps is that of the first, or else that of the second. -/
theorem verdict_bind {α β : Type} {r : Except Fault α} {g : α → Except Fault β}
    {x : Except Fault Unit} (h : ∀ a, r = .ok a → verdict (g a) = x) :
    verdict (r >>= g) = (verdict r >>= fun _ => x) := by
  cases r with
  | error f => rfl
  | ok a => exact h a rfl

/-- **The fault of a draft** is that of the first rule it breaks. -/
theorem verdict_ofDraft (d : Draft) : verdict (ofDraft d) = inspect d rules := by
  simp only [ofDraft, rules, inspect]
  refine verdict_bind fun grid hgrid => verdict_bind fun route hroute => ?_
  refine verdict_bind fun skip hskip => verdict_bind fun maxResults hmaxResults => ?_
  refine verdict_bind fun maxGap _ => verdict_bind fun maxSpeed _ => ?_
  refine verdict_bind fun maxTurnRate _ => ?_
  -- the later rules look at integers that were read before
  have hread : ∀ {f n}, wholeOf d f = .ok n → wholeOf (fun _ => d f) f = .ok n := fun h => h
  simp only [Rule.count, Rule.natural, hread hgrid, hread hroute, hread hskip, hread hmaxResults]
  refine verdict_bind fun _ _ => verdict_bind fun _ _ => ?_
  refine verdict_bind fun _ _ => verdict_bind fun _ _ => ?_
  exact verdict_bind fun _ _ => rfl

/-! ### Accepted drafts -/

theorem eq_of_wholeOf {d : Draft} {f : Field} {n : ℤ} (h : wholeOf d f = .ok n) :
    d f = .whole n := by
  rw [wholeOf] at h
  split at h
  · rename_i heq
    rw [heq, Except.ok.inj h]
  · cases h

/-- A quantity that is positive and finite is positive. -/
theorem isPositive_of_isPositiveFinite {q : Quantity} (h : isPositiveFinite q = .ok true) :
    q.isPositive = true ∧ ∃ x : Float, q.toFloat = .ok x ∧ x.isFinite = true := by
  obtain ⟨x, hx, h⟩ := Run.bind_eq_ok.mp h
  obtain ⟨hfinite, hpos⟩ := Bool.and_eq_true_iff.mp (Except.ok.inj h)
  exact ⟨hpos, x, Run.mapError_eq_ok.mp hx, hfinite⟩

/-- What a limit was made of. -/
theorem of_limitOf {d : Draft} {f : Field} {l : Limit} (h : limitOf d f = .ok l) :
    l.datum = d f ∧ ∃ q, (d f).quantity? = some q ∧ isPositiveFinite q = .ok true := by
  rw [limitOf] at h
  cases hq : (d f).quantity? with
  | none =>
      rw [hq] at h
      cases h
  | some q =>
      rw [hq] at h
      obtain ⟨b, hb, h⟩ := Run.bind_eq_ok.mp h
      cases b with
      | false => cases h
      | true =>
          refine ⟨?_, q, rfl, hb⟩
          obtain rfl := Except.ok.inj h
          cases hv : d f with
          | flag value =>
              rw [hv] at hq
              obtain rfl := Option.some.inj hq
              cases value with
              | false => cases (isPositive_of_isPositiveFinite hb).1
              | true => rfl
          | whole n =>
              rw [hv] at hq
              obtain rfl := Option.some.inj hq
              rfl
          | real x =>
              rw [hv] at hq
              obtain rfl := Option.some.inj hq
              rfl
          | _ =>
              rw [hv] at hq
              cases hq

theorem of_countOf {f : Field} {n : ℤ} {m : ℕ} (h : countOf f n = .ok m) :
    (m : ℤ) = n ∧ isPositiveFinite (.whole n) = .ok true := by
  obtain ⟨b, hb, h⟩ := Run.bind_eq_ok.mp h
  cases b with
  | false => cases h
  | true =>
      have hpos : 0 < n := of_decide_eq_true (isPositive_of_isPositiveFinite hb).1
      refine ⟨?_, hb⟩
      rw [← Except.ok.inj h]
      omega

theorem of_naturalOf {f : Field} {n : ℤ} {m : ℕ} (h : naturalOf f n = .ok m) : (m : ℤ) = n := by
  rw [naturalOf] at h
  split_ifs at h with hneg
  rw [← Except.ok.inj h]
  omega

theorem of_scoreOf {v : Datum} {s : Score} (h : scoreOf v = .ok s) : v = .text s.name := by
  cases v with
  | text name =>
      have hkey : ¬(!(Datum.text name).isKey) = true := Bool.false_ne_true
      rw [scoreOf, if_neg hkey, Score.ofDatum] at h
      cases hname : Score.ofName? name with
      | none =>
          rw [hname] at h
          cases h
      | some t =>
          rw [hname] at h
          obtain rfl := Except.ok.inj h
          have hfound := List.find?_some hname
          rw [beq_iff_eq.mp hfound]
  | _ => cases h

/-- What accepted settings were made of. -/
structure IsMadeOf (s : Settings) (d : Draft) : Prop where
  maxGap : limitOf d .maxGap = .ok s.maxGap
  maxSpeed : limitOf d .maxSpeed = .ok s.maxSpeed
  maxTurnRate : limitOf d .maxTurnRate = .ok s.maxTurnRate
  gridDivisions : ∃ n, d .gridDivisions = .whole n ∧ countOf .gridDivisions n = .ok s.gridDivisions
  routeDivisions : ∃ n, d .routeDivisions = .whole n ∧
    countOf .routeDivisions n = .ok s.routeDivisions
  skip : ∃ n, d .skip = .whole n ∧ naturalOf .skip n = .ok s.skip
  maxResults : ∃ n, d .maxResults = .whole n ∧ naturalOf .maxResults n = .ok s.maxResults
  sortField : scoreOf (d .sortField) = .ok s.sortField

theorem isMadeOf_of_ofDraft {d : Draft} {s : Settings} (h : ofDraft d = .ok s) : s.IsMadeOf d := by
  obtain ⟨grid, hgrid, h⟩ := Run.bind_eq_ok.mp h
  obtain ⟨route, hroute, h⟩ := Run.bind_eq_ok.mp h
  obtain ⟨skip, hskip, h⟩ := Run.bind_eq_ok.mp h
  obtain ⟨maxResults, hmaxResults, h⟩ := Run.bind_eq_ok.mp h
  obtain ⟨maxGap, hmaxGap, h⟩ := Run.bind_eq_ok.mp h
  obtain ⟨maxSpeed, hmaxSpeed, h⟩ := Run.bind_eq_ok.mp h
  obtain ⟨maxTurnRate, hmaxTurnRate, h⟩ := Run.bind_eq_ok.mp h
  obtain ⟨gridDivisions, hgridDivisions, h⟩ := Run.bind_eq_ok.mp h
  obtain ⟨routeDivisions, hrouteDivisions, h⟩ := Run.bind_eq_ok.mp h
  obtain ⟨skip', hskip', h⟩ := Run.bind_eq_ok.mp h
  obtain ⟨maxResults', hmaxResults', h⟩ := Run.bind_eq_ok.mp h
  obtain ⟨sortField, hsortField, h⟩ := Run.bind_eq_ok.mp h
  obtain rfl := Except.ok.inj h
  exact ⟨hmaxGap, hmaxSpeed, hmaxTurnRate, ⟨grid, eq_of_wholeOf hgrid, hgridDivisions⟩,
    ⟨route, eq_of_wholeOf hroute, hrouteDivisions⟩, ⟨skip, eq_of_wholeOf hskip, hskip'⟩,
    ⟨maxResults, eq_of_wholeOf hmaxResults, hmaxResults'⟩, hsortField⟩

/-- **Accepted settings have the values of their draft**, each as it was given. -/
theorem get_of_ofDraft {d : Draft} {s : Settings} (h : ofDraft d = .ok s) : s.get = d := by
  have hmade := isMadeOf_of_ofDraft h
  obtain ⟨grid, hgrid, hgridDivisions⟩ := hmade.gridDivisions
  obtain ⟨route, hroute, hrouteDivisions⟩ := hmade.routeDivisions
  obtain ⟨skip, hskip, hskip'⟩ := hmade.skip
  obtain ⟨maxResults, hmaxResults, hmaxResults'⟩ := hmade.maxResults
  funext f
  cases f with
  | maxGap => exact (of_limitOf hmade.maxGap).1
  | maxSpeed => exact (of_limitOf hmade.maxSpeed).1
  | maxTurnRate => exact (of_limitOf hmade.maxTurnRate).1
  | gridDivisions => rw [hgrid, ← (of_countOf hgridDivisions).1]; rfl
  | routeDivisions => rw [hroute, ← (of_countOf hrouteDivisions).1]; rfl
  | skip => rw [hskip, ← of_naturalOf hskip']; rfl
  | maxResults => rw [hmaxResults, ← of_naturalOf hmaxResults']; rfl
  | sortField => exact (of_scoreOf hmade.sortField).symm

/-- Settings are told apart by the values of their fields. -/
theorem get_injective : Function.Injective get := by
  intro s s' h
  have hdatum : ∀ {l l' : Limit}, l.datum = l'.datum → l = l' := by
    rintro (_ | _ | _) (_ | _ | _) h <;> simp_all [Limit.datum]
  have hname : ∀ t t' : Score, t.name = t'.name → t = t' := by
    intro t t'
    cases t <;> cases t' <;> decide
  have hmaxGap := hdatum (congrFun h .maxGap)
  have hmaxSpeed := hdatum (congrFun h .maxSpeed)
  have hmaxTurnRate := hdatum (congrFun h .maxTurnRate)
  have hgrid := Int.ofNat.inj (Datum.whole.inj (congrFun h .gridDivisions))
  have hroute := Int.ofNat.inj (Datum.whole.inj (congrFun h .routeDivisions))
  have hskip := Int.ofNat.inj (Datum.whole.inj (congrFun h .skip))
  have hmaxResults := Int.ofNat.inj (Datum.whole.inj (congrFun h .maxResults))
  have hsortField := hname _ _ (Datum.text.inj (congrFun h .sortField))
  cases s
  cases s'
  congr

/-- The presets are accepted. -/
theorem ofDraft_preset : ofDraft Field.preset = .ok preset := by
  have hok : (ofDraft Field.preset).isOk = true := by decide +kernel
  cases h : ofDraft Field.preset with
  | error f =>
      rw [h] at hok
      cases hok
  | ok s =>
      refine congrArg Except.ok (get_injective ?_)
      rw [get_of_ofDraft h]
      funext f
      cases f <;> rfl

/-- What holds of all accepted settings. -/
structure IsValid (s : Settings) : Prop where
  whole : ∀ f ∈ [Field.gridDivisions, .routeDivisions, .skip, .maxResults], ∃ n, s.get f = .whole n
  limit : ∀ f ∈ [Field.maxGap, .maxSpeed, .maxTurnRate, .gridDivisions, .routeDivisions],
    ∃ q x, (s.get f).quantity? = some q ∧ q.isPositive = true ∧ q.toFloat = .ok x ∧
      x.isFinite = true
  paging : ∀ f ∈ [Field.skip, .maxResults], ∃ n, s.get f = .whole n ∧ 0 ≤ n
  score : ∃ t ∈ Score.all, s.get .sortField = .text t.name

/-- **Accepted settings are valid.** -/
theorem isValid_of_ofDraft {d : Draft} {s : Settings} (h : ofDraft d = .ok s) : s.IsValid := by
  have hget := get_of_ofDraft h
  have hmade := hget ▸ isMadeOf_of_ofDraft h
  have hlimit : ∀ {f l}, limitOf s.get f = .ok l → ∃ q x, (s.get f).quantity? = some q ∧
      q.isPositive = true ∧ q.toFloat = .ok x ∧ x.isFinite = true := by
    intro f l hl
    obtain ⟨-, q, hq, hpos⟩ := of_limitOf hl
    obtain ⟨hpos, x, hx, hfinite⟩ := isPositive_of_isPositiveFinite hpos
    exact ⟨q, x, hq, hpos, hx, hfinite⟩
  have hcount : ∀ {f n m}, s.get f = .whole n → countOf f n = .ok m →
      ∃ q x, (s.get f).quantity? = some q ∧ q.isPositive = true ∧ q.toFloat = .ok x ∧
        x.isFinite = true := by
    intro f n m hf hm
    obtain ⟨hpos, x, hx, hfinite⟩ := isPositive_of_isPositiveFinite (of_countOf hm).2
    exact ⟨_, x, by rw [hf]; rfl, hpos, hx, hfinite⟩
  obtain ⟨_, hgrid, hgridDivisions⟩ := hmade.gridDivisions
  obtain ⟨_, hroute, hrouteDivisions⟩ := hmade.routeDivisions
  constructor
  · simp [get]
  · simp only [List.forall_mem_cons, List.not_mem_nil, false_implies, implies_true, and_true]
    exact ⟨hlimit hmade.maxGap, hlimit hmade.maxSpeed, hlimit hmade.maxTurnRate,
      hcount hgrid hgridDivisions, hcount hroute hrouteDivisions⟩
  · simp [get]
  · exact ⟨s.sortField, by cases s.sortField <;> decide, rfl⟩

/-! ### Changes -/

/-- The values that a change gives to the fields it names. -/
abbrev Change := List (String × Datum)

namespace Change

/-- All entries have the name of a field. -/
def IsKnown (c : Change) : Prop := ∀ e ∈ c, ∃ f : Field, f.name = e.1

/-- The value given to a field, which is that of the last entry with its name. -/
def value? (c : Change) (f : Field) : Option Datum := c.reverse.lookup f.name

/-- The change as a section of a document. -/
def toSection (c : Change) : Datum := .map (c.map fun e => (.text e.1, e.2))

theorem value?_append (c c' : Change) (f : Field) :
    value? (c ++ c') f = (value? c' f).or (value? c f) := by
  rw [value?, List.reverse_append, List.lookup_append]
  rfl

theorem value?_cons (e : String × Datum) (c : Change) (f : Field) :
    value? (e :: c) f = (value? c f).or (if f.name = e.1 then some e.2 else none) := by
  rw [← List.singleton_append, value?_append]
  congr 1
  show List.lookup f.name [(e.1, e.2)] = _
  rw [List.lookup_cons]
  by_cases h : f.name = e.1
  · rw [if_pos h, beq_iff_eq.mpr h]
  · rw [if_neg h, beq_eq_false_iff_ne.mpr h]
    rfl

end Change

/-- A change sets the fields that it names and no others. -/
theorem eq_of_setNamed {d d' : Draft} {c : Change} (h : d.setNamed c = .ok d') :
    ∀ f, d' f = (c.value? f).getD (d f) := by
  induction c generalizing d with
  | nil =>
      intro f
      rw [← Except.ok.inj h]
      rfl
  | cons e c ih =>
      rw [Draft.setNamed] at h
      cases hname : Field.ofName? e.1 with
      | none =>
          rw [hname] at h
          cases h
      | some g =>
          rw [hname] at h
          intro f
          have hiff : f = g ↔ f.name = e.1 :=
            ⟨fun hf => hf ▸ Field.ofName?_eq_some_iff.mp hname,
              fun hf => Option.some.inj ((Field.ofName?_eq_some_iff.mpr hf).symm.trans hname)⟩
          rw [ih h, Change.value?_cons, Draft.set, if_congr hiff rfl rfl]
          cases Change.value? c f with
          | some v => rfl
          | none =>
              by_cases hf : f.name = e.1
              · simp [hf]
              · simp [hf]

/-- A change that names fields only can be applied to any draft. -/
theorem Change.IsKnown.exists_setNamed {c : Change} (hc : c.IsKnown) (d : Draft) :
    ∃ d', d.setNamed c = .ok d' := by
  induction c generalizing d with
  | nil => exact ⟨d, rfl⟩
  | cons e c ih =>
      obtain ⟨⟨f, hf⟩, hc⟩ := List.forall_mem_cons.mp hc
      rw [Draft.setNamed, Field.ofName?_eq_some_iff.mpr hf]
      exact ih hc _

/-- A section that names fields only sets them in the presets. -/
theorem ofSection_toSection {c : Change} (hc : c.IsKnown) :
    ofSection c.toSection = Draft.setNamed Field.preset c >>= ofDraft := by
  have htexts : (c.map fun e => (Datum.text e.1, e.2)).mapM (m := Except Fault)
      (fun e => do return (← keyText e.1, e.2)) = .ok c :=
    Run.mapM_eq_ok.mpr (List.forall₂_map_left_iff.mpr (List.forall₂_same.mpr fun _ _ => rfl))
  rw [Change.toSection, ofSection, List.filter_eq_nil_iff.mpr ?known, List.mapM_nil, htexts]
  case known =>
    intro e he
    obtain ⟨e, hmem, rfl⟩ := List.mem_map.mp he
    obtain ⟨f, hf⟩ := hc e hmem
    simp [Field.ofName?_eq_some_iff.mpr hf]
  rfl

/-- **The fault of a change** that names fields only is the one that it has as a section. Each
rule sees either a value of the change or a value that was accepted before, and no rule is broken
by the latter. -/
theorem verdict_override {s : Settings} (hs : ofDraft s.get = .ok s) {c : Change}
    (hc : c.IsKnown) : verdict (s.override c) = verdict (ofSection c.toSection) := by
  obtain ⟨d, hd⟩ := hc.exists_setNamed s.get
  obtain ⟨d', hd'⟩ := hc.exists_setNamed Field.preset
  have hover : s.override c = ofDraft d := by
    rw [override, hd]
    rfl
  have hsection : ofSection c.toSection = ofDraft d' := by
    rw [ofSection_toSection hc, hd']
    rfl
  rw [hover, hsection, verdict_ofDraft, verdict_ofDraft]
  refine inspect_congr fun r hr => ?_
  rw [eq_of_setNamed hd, eq_of_setNamed hd']
  cases c.value? r.field with
  | some v => rfl
  | none =>
      have hsettled : inspect s.get rules = .ok () := by rw [← verdict_ofDraft, hs]; rfl
      have hpreset : inspect Field.preset rules = .ok () := by
        rw [← verdict_ofDraft, ofDraft_preset]
        rfl
      exact (check_of_inspect hsettled r hr).trans (check_of_inspect hpreset r hr).symm

/-! ### Sequences of changes -/

/-- The settings after a change, which stay as they are if it is refused. -/
def changed (s : Settings) (c : Change) : Settings :=
  match s.override c with
  | .ok s' => s'
  | .error _ => s

/-- The settings after changes of the presets, one after the other. -/
def configured (cs : List Change) : Settings := cs.foldl changed preset

/-- The changes of a sequence that are accepted, each by the settings it finds. -/
def accepted (s : Settings) : List Change → List Change
  | [] => []
  | c :: cs =>
      if (s.override c).isOk then c :: (s.changed c).accepted cs else (s.changed c).accepted cs

/-- A change leaves settings that are made from their own values. -/
theorem ofDraft_changed {s : Settings} (hs : ofDraft s.get = .ok s) (c : Change) :
    ofDraft (s.changed c).get = .ok (s.changed c) := by
  rw [changed]
  cases h : s.override c with
  | error f => exact hs
  | ok s' =>
      obtain ⟨d, -, hd⟩ := Run.bind_eq_ok.mp h
      rw [get_of_ofDraft hd]
      exact hd

/-- So does a sequence of changes. -/
theorem ofDraft_foldl_changed {s : Settings} (hs : ofDraft s.get = .ok s) (cs : List Change) :
    ofDraft (cs.foldl changed s).get = .ok (cs.foldl changed s) := by
  induction cs generalizing s with
  | nil => exact hs
  | cons c cs ih => exact ih (ofDraft_changed hs c)

/-- A change that is accepted sets the fields that it names, one that is refused sets none. -/
theorem get_changed (s : Settings) (c : Change) (f : Field) :
    (s.changed c).get f = ((if (s.override c).isOk then c.value? f else none).getD (s.get f)) := by
  rw [changed]
  cases h : s.override c with
  | error e => rfl
  | ok s' =>
      obtain ⟨d, hset, hd⟩ := Run.bind_eq_ok.mp h
      rw [get_of_ofDraft hd]
      exact eq_of_setNamed hset f

/-- **Each field has the value of the last accepted change that set it.** -/
theorem get_foldl_changed (s : Settings) (cs : List Change) (f : Field) :
    (cs.foldl changed s).get f = ((Change.value? (s.accepted cs).flatten f).getD (s.get f)) := by
  induction cs generalizing s with
  | nil => rfl
  | cons c cs ih =>
      rw [List.foldl_cons, ih, get_changed, accepted]
      by_cases hok : (s.override c).isOk = true
      · rw [if_pos hok, if_pos hok, List.flatten_cons, Change.value?_append]
        cases Change.value? ((s.changed c).accepted cs).flatten f <;> rfl
      · rw [if_neg hok, if_neg hok]
        rfl

/-- **Settings that are changed any number of times** are valid; whether the next change is
accepted, and with what fault it is refused, depends on that change alone and is as for the same
values given as a section; and each field has the value, as it was given, of the last accepted
change that set it, or its preset. -/
theorem configured_by_changes (cs : List Change) :
    (configured cs).IsValid ∧
      (∀ c : Change, c.IsKnown →
        verdict ((configured cs).override c) = verdict (ofSection c.toSection)) ∧
      ∀ f, (configured cs).get f =
        ((Change.value? (preset.accepted cs).flatten f).getD f.preset) := by
  have hpreset : ofDraft preset.get = .ok preset := by
    rw [get_of_ofDraft ofDraft_preset]
    exact ofDraft_preset
  have hsettled : ofDraft (configured cs).get = .ok (configured cs) :=
    ofDraft_foldl_changed hpreset cs
  refine ⟨isValid_of_ofDraft hsettled, fun c hc => verdict_override hsettled hc, fun f => ?_⟩
  rw [configured, get_foldl_changed, get_of_ofDraft ofDraft_preset]

/-- Changes of which some are refused: for their own values, or for the name of no field. -/
def sampleChanges : List Change :=
  [[("max_speed", .flag true), ("skip_results", .whole 3)], [("grid_divisions", .real 5)],
   [("colour", .null)], [("max_speed", .whole 7), ("skip_results", .whole (-1))]]

/-- Only the first change of the sample is accepted, and a list is refused as a score. -/
theorem configured_by_changes_sample :
    preset.accepted sampleChanges = [[("max_speed", .flag true), ("skip_results", .whole 3)]] ∧
      (configured sampleChanges).get .maxSpeed = .flag true ∧
      (configured sampleChanges).get .skip = .whole 3 ∧
      verdict ((configured sampleChanges).override [("sort_field", .list [])]) =
        verdict (ofSection (Change.toSection [("sort_field", .list [])])) := by
  obtain ⟨-, hverdict, hget⟩ := configured_by_changes sampleChanges
  have haccepted : preset.accepted sampleChanges =
      [[("max_speed", .flag true), ("skip_results", .whole 3)]] := by
    rw [sampleChanges, accepted, if_pos (by decide +kernel), accepted, if_neg (by decide +kernel),
      accepted, if_neg (by decide +kernel), accepted, if_neg (by decide +kernel), accepted]
  refine ⟨haccepted, ?_, ?_, hverdict _ ?_⟩
  · rw [hget, haccepted]
    rfl
  · rw [hget, haccepted]
    rfl
  · exact fun e he => ⟨.sortField, by rw [List.mem_singleton.mp he]; rfl⟩

end Corridor.Settings
