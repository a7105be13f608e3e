import Corridor.Proofs.Number.Sign
import Corridor.Proofs.Settings

/-!
# Sections That Are Refused

A section of a document gives settings or is refused, and what is wrong with it should be told as a
fault of settings. Most of it is: a section that is no map, a name of no field, an integer that is
none, a number out of its range and a score that does not exist. But the checks ask more of a value
than every value can answer. Whether a limit is finite is asked of numbers that have a double, a
score is looked for among names only if it can be a key, and only texts can be told as names of no
field. A section that fails one of these is refused with the fault of the question.

## Main results

* `inspect_eq_error_iff`: the rule that the fault of a draft comes from.
* `Rule.kind_of_check`: the kinds of the faults of one rule.
* `ofSection_toSection_eq_error_iff`: the faults of a section that names fields only.
* `ofSection_ends`: which sections give settings, and which are refused with what kind of fault.
-/

namespace Corridor

/-- **The integers that have a double** are those below the bound from which on they are rounded to
the infinity. -/
theorem Double.ofInt_eq_ite (n : ℤ) : (Scalar.ofInt n : Except ArithmeticFault Float) =
    if n.natAbs < quotientBound then .ok (ofRatio n 1) else .error .integerTooLarge := by
  refine (ofInt_eq n).trans (if_congr ?_ rfl rfl)
  rw [rounded_lt_unitsBound_iff Nat.one_pos, Nat.mul_one, overflowBound_eq,
    Nat.mul_lt_mul_right unitsPerOne_pos]

namespace Settings

open Double

/-! ### The fault of a draft -/

/-- A draft gets to a rule if it breaks none of those before it. -/
def Reaches (d : Draft) (r : Rule) : Prop :=
  ∃ before after, rules = before ++ r :: after ∧ ∀ r' ∈ before, r'.check (d r'.field) = .ok ()

/-- The fault of a draft is that of the rule before which it breaks none. -/
theorem inspect_eq_error_iff {d : Draft} {rs : List Rule} {f : Fault} :
    inspect d rs = .error f ↔ ∃ before r after, rs = before ++ r :: after ∧
      (∀ r' ∈ before, r'.check (d r'.field) = .ok ()) ∧ r.check (d r.field) = .error f := by
  induction rs with
  | nil =>
      constructor
      · intro h
        cases h
      · rintro ⟨before, r, after, h, -⟩
        simp at h
  | cons r rs ih =>
      rw [inspect, Run.bind_eq_error]
      constructor
      · rintro (h | ⟨⟨⟩, hr, h⟩)
        · exact ⟨[], r, rs, rfl, by simp, h⟩
        · obtain ⟨before, r', after, rfl, hbefore, hr'⟩ := ih.mp h
          exact ⟨r :: before, r', after, rfl, List.forall_mem_cons.mpr ⟨hr, hbefore⟩, hr'⟩
      · rintro ⟨before, r', after, heq, hbefore, hr'⟩
        cases before with
        | nil =>
            obtain ⟨rfl, -⟩ := List.cons.inj heq
            exact .inl hr'
        | cons b before =>
            obtain ⟨rfl, rfl⟩ := List.cons.inj heq
            obtain ⟨hb, hbefore⟩ := List.forall_mem_cons.mp hbefore
            exact .inr ⟨(), hb, ih.mpr ⟨before, r', after, rfl, hbefore, hr'⟩⟩

/-- Leaving out what is not a fault keeps the fault. -/
theorem verdict_eq_error {α : Type} {r : Except Fault α} {f : Fault} :
    verdict r = .error f ↔ r = .error f := by
  cases r with
  | error e => exact ⟨fun h => congrArg Except.error (Except.error.inj h), fun h => h ▸ rfl⟩
  | ok a =>
      constructor
      · intro h
        cases h
      · intro h
        cases h

/-- **The fault of a draft** is that of the first rule it breaks. -/
theorem ofDraft_eq_error_iff {d : Draft} {f : Fault} :
    ofDraft d = .error f ↔ ∃ r, Reaches d r ∧ r.check (d r.field) = .error f := by
  rw [← verdict_eq_error, verdict_ofDraft, inspect_eq_error_iff]
  constructor
  · rintro ⟨before, r, after, hrules, hbefore, hr⟩
    exact ⟨r, ⟨before, after, hrules, hbefore⟩, hr⟩
  · rintro ⟨r, ⟨before, after, hrules, hbefore⟩, hr⟩
    exact ⟨before, r, after, hrules, hbefore, hr⟩

/-! ### The faults of a rule -/

/-- The values of which a rule asks what they cannot answer, and the kind of fault that this is. -/
inductive Rule.Stops : Rule → Datum → Kind → Prop
  /-- A limit that is no number. -/
  | limitNotNumber {f : Field} {v : Datum} (h : v.quantity? = none) : Stops (.limit f) v .type
  /-- A limit that is an integer without a double. -/
  | limitTooLarge {f : Field} {n : ℤ} (h : quotientBound ≤ n.natAbs) :
      Stops (.limit f) (.whole n) .overflow
  /-- A number of divisions that has no double. -/
  | countTooLarge {f : Field} {n : ℤ} (h : quotientBound ≤ n.natAbs) :
      Stops (.count f) (.whole n) .overflow
  /-- A list or a map in the place of a score. -/
  | scoreNotKey {v : Datum} (h : v.isKey = false) : Stops .score v .type

/-- Only integers without a double cannot be asked whether they are positive and finite. -/
theorem isPositiveFinite_eq_error_iff {q : Quantity} {f : Fault} :
    isPositiveFinite q = .error f ↔
      ∃ n, q = .whole n ∧ quotientBound ≤ n.natAbs ∧ f = .arithmetic .integerTooLarge := by
  cases q with
  | real x =>
      constructor
      · intro h
        cases h
      · rintro ⟨n, h, -⟩
        cases h
  | whole n =>
      have hfloat : (Quantity.whole n).toFloat = _ := ofInt_eq_ite n
      rw [isPositiveFinite, hfloat]
      by_cases hn : n.natAbs < quotientBound
      · rw [if_pos hn]
        constructor
        · intro h
          cases h
        · rintro ⟨m, hm, hle, -⟩
          obtain rfl := Quantity.whole.inj hm
          omega
      · rw [if_neg hn]
        constructor
        · intro h
          exact ⟨n, rfl, Nat.le_of_not_lt hn, (Except.error.inj h).symm⟩
        · rintro ⟨-, -, -, rfl⟩
          rfl

namespace Rule

variable {f : Field} {v : Datum} {k : Kind} {e : Fault}

/-- A value that cannot answer is refused with the fault of the question. -/
theorem Stops.check {r : Rule} (h : r.Stops v k) : ∃ e, r.check v = .error e ∧ e.kind = k := by
  cases h with
  | @limitNotNumber f v h =>
      refine ⟨.fieldNotNumeric f.name v.kindName, verdict_eq_error.mpr ?_, rfl⟩
      rw [limitOf, h]
  | @limitTooLarge f n h =>
      refine ⟨.arithmetic .integerTooLarge, verdict_eq_error.mpr ?_, rfl⟩
      exact Run.bind_eq_error.mpr (.inl (isPositiveFinite_eq_error_iff.mpr ⟨n, rfl, h, rfl⟩))
  | @countTooLarge f n h =>
      refine ⟨.arithmetic .integerTooLarge, verdict_eq_error.mpr ?_, rfl⟩
      refine Run.bind_eq_error.mpr (.inr ⟨n, rfl, Run.bind_eq_error.mpr (.inl ?_)⟩)
      exact isPositiveFinite_eq_error_iff.mpr ⟨n, rfl, h, rfl⟩
  | scoreNotKey h =>
      refine ⟨.keyNotHashable v.kindName, verdict_eq_error.mpr ?_, rfl⟩
      rw [scoreOf, h]
      rfl

theorem kind_of_check_whole (h : (whole f).check v = .error e) : e.kind = .settings := by
  have h : wholeOf (fun _ => v) f = .error e := verdict_eq_error.mp h
  cases v with
  | whole n => cases h
  | _ => exact Except.error.inj h ▸ rfl

theorem kind_of_check_limit (h : (limit f).check v = .error e) :
    e.kind = .settings ∨ (limit f).Stops v e.kind := by
  have h : limitOf (fun _ => v) f = .error e := verdict_eq_error.mp h
  rw [limitOf] at h
  cases hq : v.quantity? with
  | none =>
      rw [hq] at h
      exact .inr (Except.error.inj h ▸ .limitNotNumber hq)
  | some q =>
      rw [hq] at h
      rcases Run.bind_eq_error.mp h with hask | ⟨b, -, hrange⟩
      · obtain ⟨n, rfl, hn, rfl⟩ := isPositiveFinite_eq_error_iff.mp hask
        -- an integer in the place of a limit is one, or a flag, which is not large
        cases v with
        | flag value =>
            obtain rfl := Quantity.whole.inj (Option.some.inj hq)
            have := one_lt_quotientBound
            cases value with
            | false => exact absurd hn (by simp; omega)
            | true => exact absurd hn (by simp; omega)
        | whole m =>
            obtain rfl := Quantity.whole.inj (Option.some.inj hq)
            exact .inr (.limitTooLarge hn)
        | _ => cases hq
      · cases b with
        | true => cases hrange
        | false => exact .inl (Except.error.inj hrange ▸ rfl)

theorem kind_of_check_count (h : (count f).check v = .error e) :
    e.kind = .settings ∨ (count f).Stops v e.kind := by
  rcases Run.bind_eq_error.mp (verdict_eq_error.mp h) with hwhole | ⟨n, hn, hcount⟩
  · exact .inl (kind_of_check_whole (verdict_eq_error.mpr hwhole))
  · obtain rfl : v = .whole n := eq_of_wholeOf hn
    rcases Run.bind_eq_error.mp hcount with hask | ⟨b, -, hrange⟩
    · obtain ⟨m, hm, hlarge, rfl⟩ := isPositiveFinite_eq_error_iff.mp hask
      obtain rfl := Quantity.whole.inj hm
      exact .inr (.countTooLarge hlarge)
    · cases b with
      | true => cases hrange
      | false => exact .inl (Except.error.inj hrange ▸ rfl)

theorem kind_of_check_natural (h : (natural f).check v = .error e) : e.kind = .settings := by
  rcases Run.bind_eq_error.mp (verdict_eq_error.mp h) with hwhole | ⟨n, -, hnatural⟩
  · exact kind_of_check_whole (verdict_eq_error.mpr hwhole)
  · rw [naturalOf] at hnatural
    split_ifs at hnatural
    exact Except.error.inj hnatural ▸ rfl

theorem kind_of_check_score (h : score.check v = .error e) :
    e.kind = .settings ∨ score.Stops v e.kind := by
  have h : scoreOf v = .error e := verdict_eq_error.mp h
  rw [scoreOf] at h
  cases hkey : v.isKey with
  | false =>
      rw [hkey] at h
      exact .inr (Except.error.inj h ▸ .scoreNotKey hkey)
  | true =>
      rw [hkey] at h
      cases hscore : Score.ofDatum v with
      | ok s =>
          rw [hscore] at h
          cases h
      | error e' =>
          rw [hscore] at h
          exact .inl (Except.error.inj h ▸ rfl)

/-- **The kinds of the faults of one rule.** -/
theorem kind_of_check {r : Rule} (hr : r ∈ rules) (h : r.check v = .error e) :
    e.kind = .settings ∨ r.Stops v e.kind := by
  simp only [rules, List.mem_cons, List.not_mem_nil, or_false] at hr
  rcases hr with rfl | rfl | rfl | rfl | rfl | rfl | rfl | rfl | rfl | rfl | rfl | rfl
  · exact .inl (kind_of_check_whole h)
  · exact .inl (kind_of_check_whole h)
  · exact .inl (kind_of_check_whole h)
  · exact .inl (kind_of_check_whole h)
  · exact kind_of_check_limit h
  · exact kind_of_check_limit h
  · exact kind_of_check_limit h
  · exact kind_of_check_count h
  · exact kind_of_check_count h
  · exact .inl (kind_of_check_natural h)
  · exact .inl (kind_of_check_natural h)
  · exact kind_of_check_score h

/-- A question that cannot be answered is a fault of type, or of a number out of range. -/
theorem Stops.kind_mem {r : Rule} (h : r.Stops v k) : k ∈ [Kind.type, .overflow] := by
  cases h <;> decide

end Rule

/-! ### Keys -/

/-- The values of a change over the presets. -/
def Change.draft (c : Change) : Draft := fun f => (c.value? f).getD f.preset

/-- The faults of a section that names fields only are those of the first rule that it breaks. -/
theorem ofSection_toSection_eq_error_iff {c : Change} (hc : c.IsKnown) {f : Fault} :
    ofSection c.toSection = .error f ↔
      ∃ r, Reaches c.draft r ∧ r.check (c.draft r.field) = .error f := by
  obtain ⟨d, hd⟩ := hc.exists_setNamed Field.preset
  obtain rfl : d = c.draft := funext (eq_of_setNamed hd)
  rw [ofSection_toSection hc, hd]
  exact ofDraft_eq_error_iff

theorem keyText_eq_ok {key : Datum} {name : String} :
    keyText key = .ok name ↔ key = .text name := by
  cases key with
  | text s => exact ⟨fun h => congrArg Datum.text (Except.ok.inj h), fun h => h ▸ rfl⟩
  | _ =>
      constructor
      · intro h
        cases h
      · intro h
        cases h

/-- The keys of entries can be told if they are texts. -/
theorem mapM_keyText_eq_ok {es : List (Datum × Datum)} {names : List String} :
    es.mapM (fun e => keyText e.1) = .ok names ↔ es.map (·.1) = names.map .text := by
  rw [Run.mapM_eq_ok]
  simp only [keyText_eq_ok]
  rw [← List.forall₂_eq_eq_eq, List.forall₂_map_left_iff, List.forall₂_map_right_iff]

/-- There is one reason only for which they cannot be told. -/
theorem exists_of_mapM_keyText_eq_error {es : List (Datum × Datum)} {f : Fault}
    (h : es.mapM (fun e => keyText e.1) = .error f) :
    ∃ e ∈ es, (∀ name, e.1 ≠ .text name) ∧ f = .keyNotText e.1.kindName := by
  obtain ⟨e, hmem, he⟩ := Run.exists_of_mapM_eq_error h
  refine ⟨e, hmem, ?_⟩
  generalize e.1 = key at he
  cases key with
  | text s => cases he
  | _ => exact ⟨nofun, (Except.error.inj he).symm⟩

/-- The entries of a section whose keys are no names of fields. -/
def strangers (es : List (Datum × Datum)) : List (Datum × Datum) :=
  es.filter fun e => match e.1 with
    | .text s => (Field.ofName? s).isNone
    | _ => true

/-- Settings are made of a map only if all of its keys name fields. -/
theorem ofSection_map (es : List (Datum × Datum)) :
    ofSection (.map es) = ((strangers es).mapM fun e => keyText e.1) >>= fun names =>
      if names.isEmpty then
        (es.mapM fun e => do return (← keyText e.1, e.2)) >>= fun changes =>
          Draft.setNamed Field.preset changes >>= ofDraft
      else .error (.keysUnknown (names.mergeSort fun a b => a ≤ b)) := by
  refine bind_congr (x := (strangers es).mapM fun e => keyText e.1) fun names => ?_
  cases names <;> rfl

/-- A section with a key that is no text is refused for such a key. -/
theorem ofSection_of_key {es : List (Datum × Datum)} {e : Datum × Datum} (hmem : e ∈ es)
    (hkey : ∀ name, e.1 ≠ .text name) : ∃ e' ∈ es, (∀ name, e'.1 ≠ .text name) ∧
      ofSection (.map es) = .error (.keyNotText e'.1.kindName) := by
  have hstranger : e ∈ strangers es := by
    refine List.mem_filter.mpr ⟨hmem, ?_⟩
    split
    · rename_i name h
      exact absurd h (hkey name)
    · rfl
  rw [ofSection_map]
  cases hnames : (strangers es).mapM fun e => keyText e.1 with
  | error f =>
      obtain ⟨e', hmem', hkey', rfl⟩ := exists_of_mapM_keyText_eq_error hnames
      exact ⟨e', (List.mem_filter.mp hmem').1, hkey', rfl⟩
  | ok names =>
      have hmem := List.mem_map_of_mem (f := (·.1)) hstranger
      rw [mapM_keyText_eq_ok.mp hnames] at hmem
      obtain ⟨name, -, hname⟩ := List.mem_map.mp hmem
      exact absurd hname.symm (hkey name)

/-- A section with a name of no field is refused for it. -/
theorem exists_keysUnknown {c : Change} (hc : ¬c.IsKnown) :
    ∃ names, ofSection c.toSection = .error (.keysUnknown names) := by
  simp only [Change.IsKnown, not_forall, not_exists] at hc
  obtain ⟨e, hmem, hnone⟩ := hc
  -- the strangers are the entries of the change that name no field
  have hstrangers : strangers (c.map fun e => (.text e.1, e.2)) =
      (c.filter fun e => (Field.ofName? e.1).isNone).map fun e => (.text e.1, e.2) := by
    rw [strangers, List.filter_map]
    rfl
  have hnames : (strangers (c.map fun e => (.text e.1, e.2))).mapM (fun e => keyText e.1) =
      .ok ((c.filter fun e => (Field.ofName? e.1).isNone).map (·.1)) := by
    rw [mapM_keyText_eq_ok, hstrangers, List.map_map, List.map_map]
    rfl
  have hunknown : (Field.ofName? e.1).isNone = true := by
    refine Option.isNone_iff_eq_none.mpr (Option.eq_none_iff_forall_ne_some.mpr fun f hf => ?_)
    exact hnone f (Field.ofName?_eq_some_iff.mp hf)
  have hsome : ¬((c.filter fun e => (Field.ofName? e.1).isNone).map (·.1)).isEmpty = true := by
    rw [List.isEmpty_iff, List.map_eq_nil_iff]
    exact List.ne_nil_of_mem (List.mem_filter.mpr ⟨hmem, hunknown⟩)
  rw [Change.toSection, ofSection_map, hnames]
  exact ⟨_, if_neg hsome⟩

/-- A map of which all keys are texts is a change as a section. -/
theorem exists_toSection {es : List (Datum × Datum)} (h : ∀ e ∈ es, ∃ name, e.1 = .text name) :
    ∃ c : Change, Datum.map es = c.toSection := by
  refine ⟨es.map fun e => (e.1.plain, e.2), congrArg Datum.map ?_⟩
  rw [List.map_map]
  refine (List.map_id es).symm.trans (List.map_congr_left fun e he => ?_)
  obtain ⟨name, hname⟩ := h e he
  obtain ⟨key, value⟩ := e
  obtain rfl : key = .text name := hname
  rfl

/-! ### Sections -/

/-- The sections that are refused with a fault which is not one of settings, and the kind of it. -/
inductive Strays : Datum → Kind → Prop
  /-- A key that is no text. -/
  | key {es : List (Datum × Datum)} {e : Datum × Datum} (hmem : e ∈ es)
      (hkey : ∀ name, e.1 ≠ .text name) : Strays (.map es) .type
  /-- Among the names of fields only, one with a value of which the first rule that is broken asks
  what it cannot answer. -/
  | value {c : Change} {r : Rule} {k : Kind} (hknown : c.IsKnown) (hreached : Reaches c.draft r)
      (hstops : r.Stops (c.draft r.field) k) : Strays c.toSection k

/-- A section that strays is refused with a fault of the kind told. -/
theorem Strays.refused {d : Datum} {k : Kind} (h : Strays d k) :
    ∃ f, ofSection d = .error f ∧ f.kind = k := by
  cases h with
  | key hmem hkey =>
      obtain ⟨e, -, -, hrefused⟩ := ofSection_of_key hmem hkey
      exact ⟨_, hrefused, rfl⟩
  | value hknown hreached hstops =>
      obtain ⟨f, hf, hkind⟩ := hstops.check
      exact ⟨f, (ofSection_toSection_eq_error_iff hknown).mpr ⟨_, hreached, hf⟩, hkind⟩

theorem Strays.kind_mem {d : Datum} {k : Kind} (h : Strays d k) : k ∈ [Kind.type, .overflow] := by
  cases h with
  | key => decide
  | value _ _ hstops => exact hstops.kind_mem

/-- The settings of a section are valid. -/
theorem isValid_of_ofSection {d : Datum} {s : Settings} (h : ofSection d = .ok s) : s.IsValid := by
  cases d with
  | null =>
      obtain rfl := Except.ok.inj h
      exact isValid_of_ofDraft ofDraft_preset
  | map es =>
      rw [ofSection_map] at h
      obtain ⟨names, -, h⟩ := Run.bind_eq_ok.mp h
      split_ifs at h
      obtain ⟨changes, -, h⟩ := Run.bind_eq_ok.mp h
      obtain ⟨draft, -, h⟩ := Run.bind_eq_ok.mp h
      exact isValid_of_ofDraft h
  | _ => cases h

/-- **A section is refused** with a fault of settings, unless it strays. -/
theorem kind_of_ofSection {d : Datum} {f : Fault} (h : ofSection d = .error f) :
    f.kind = .settings ∨ Strays d f.kind := by
  cases d with
  | null => cases h
  | map es =>
      by_cases hkeys : ∀ e ∈ es, ∃ name, e.1 = .text name
      · obtain ⟨c, hc⟩ := exists_toSection hkeys
        rw [hc] at h ⊢
        by_cases hknown : c.IsKnown
        · obtain ⟨r, hreached, hr⟩ := (ofSection_toSection_eq_error_iff hknown).mp h
          obtain ⟨before, after, hrules, -⟩ := id hreached
          refine (Rule.kind_of_check (by simp [hrules]) hr).imp_right fun hstops => ?_
          exact .value hknown hreached hstops
        · obtain ⟨names, hnames⟩ := exists_keysUnknown hknown
          obtain rfl := Except.error.inj (hnames.symm.trans h)
          exact .inl rfl
      · simp only [not_forall, not_exists] at hkeys
        obtain ⟨e, hmem, hkey⟩ := hkeys
        obtain ⟨e', -, -, hrefused⟩ := ofSection_of_key hmem hkey
        obtain rfl := Except.error.inj (hrefused.symm.trans h)
        exact .inr (.key hmem hkey)
  | _ => exact .inl (Except.error.inj h ▸ rfl)

/-- **How a section ends**: it gives valid settings, or it is refused with a fault of settings, or
it strays, which is a fault of type or of a number out of range. It strays just if it is refused
with a fault that is not one of settings. -/
theorem ofSection_ends (d : Datum) :
    ((∃ s, ofSection d = .ok s ∧ s.IsValid) ∨
      (∃ f, ofSection d = .error f ∧ f.kind = .settings) ∨
      ∃ k ∈ [Kind.type, .overflow], Strays d k) ∧
    ∀ k, Strays d k ↔ (∃ f, ofSection d = .error f ∧ f.kind = k) ∧ k ≠ .settings := by
  constructor
  · cases h : ofSection d with
    | ok s => exact .inl ⟨s, rfl, isValid_of_ofSection h⟩
    | error f =>
        rcases kind_of_ofSection h with hkind | hstrays
        · exact .inr (.inl ⟨f, rfl, hkind⟩)
        · exact .inr (.inr ⟨f.kind, hstrays.kind_mem, hstrays⟩)
  · intro k
    constructor
    · intro h
      refine ⟨h.refused, fun hk => ?_⟩
      subst hk
      exact absurd h.kind_mem (by decide)
    · rintro ⟨⟨f, hf, rfl⟩, hne⟩
      exact (kind_of_ofSection hf).resolve_left hne

/-- A section with a text in the place of a limit. -/
def wordySection : Datum := .map [(.text "max_speed", .text "fast")]

/-- It is refused, and not with a fault of settings. -/
theorem ofSection_wordySection : ¬((∃ s, ofSection wordySection = .ok s ∧ s.IsValid) ∨
    ∃ f, ofSection wordySection = .error f ∧ f.kind = .settings) := by
  have hkind : (match ofSection wordySection with
      | .error f => f.kind == .type
      | .ok _ => false) = true := by decide +kernel
  rintro (⟨s, hs, -⟩ | ⟨f, hf, hsettings⟩)
  · rw [hs] at hkind
    cases hkind
  · rw [hf] at hkind
    exact absurd (beq_iff_eq.mp hkind) (hsettings ▸ by decide)

end Settings

end Corridor
