import Corridor.Trace
import Mathlib.Data.List.Forall2

/-!
# Results of Runs

A run leaves a trace, but most of its steps do not look at it. `Run.Yields r x` says that the run
`r` has the result `x` whatever the trace it starts from; it is kept by all ways in which runs
are put together, so a run whose parts yield results has the result that the same parts have
without a trace.

## Main results

* `bind_eq_ok`, `mapM_eq_ok`: what a result that is not a fault was made of.
* `bind_eq_error`, `exists_of_mapM_eq_error`: where a fault comes from.
* `Yields.bind`, `Yields.mapM`, `Yields.guarded`: runs that are put together.
* `Yields.noteCall`: a step that does not depend on the number of the call.
-/

namespace Corridor.Run

section

variable {ε α β : Type}

/-- The parts of a result that is not a fault. -/
theorem bind_eq_ok {r : Except ε α} {f : α → Except ε β} {b : β} :
    (r >>= f) = .ok b ↔ ∃ a, r = .ok a ∧ f a = .ok b := by
  cases r with
  | error e =>
      constructor
      · intro h
        cases h
      · rintro ⟨a, h, -⟩
        cases h
  | ok a =>
      refine ⟨fun h => ⟨a, rfl, h⟩, ?_⟩
      rintro ⟨a', ha, h⟩
      obtain rfl := Except.ok.inj ha
      exact h

/-- The part that a fault comes from. -/
theorem bind_eq_error {r : Except ε α} {f : α → Except ε β} {e : ε} :
    (r >>= f) = .error e ↔ r = .error e ∨ ∃ a, r = .ok a ∧ f a = .error e := by
  cases r with
  | error e' =>
      refine ⟨fun h => .inl (congrArg Except.error (Except.error.inj h)), ?_⟩
      rintro (h | ⟨a, h, -⟩)
      · exact congrArg Except.error (Except.error.inj h)
      · cases h
  | ok a =>
      refine ⟨fun h => .inr ⟨a, rfl, h⟩, ?_⟩
      rintro (h | ⟨a', ha, h⟩)
      · cases h
      · obtain rfl := Except.ok.inj ha
        exact h

/-- Renaming faults leaves other results as they are. -/
theorem mapError_eq_ok {ε' : Type} {r : Except ε α} {f : ε → ε'} {a : α} :
    r.mapError f = .ok a ↔ r = .ok a := by
  cases r with
  | error e =>
      constructor
      · intro h
        cases h
      · intro h
        cases h
  | ok b =>
      constructor
      · intro h
        exact congrArg Except.ok (Except.ok.inj h)
      · intro h
        exact congrArg Except.ok (Except.ok.inj h)

/-- The results for a list, if none is a fault. -/
theorem mapM_eq_ok {f : α → Except ε β} {as : List α} {bs : List β} :
    as.mapM f = .ok bs ↔ List.Forall₂ (fun a b => f a = .ok b) as bs := by
  induction as generalizing bs with
  | nil =>
      rw [List.mapM_nil, List.forall₂_nil_left_iff]
      exact ⟨fun h => (Except.ok.inj h).symm, fun h => congrArg Except.ok h.symm⟩
  | cons a as ih =>
      rw [List.mapM_cons, List.forall₂_cons_left_iff, bind_eq_ok]
      constructor
      · rintro ⟨b, hb, h⟩
        obtain ⟨bs', hbs', h⟩ := bind_eq_ok.mp h
        exact ⟨b, bs', hb, ih.mp hbs', (Except.ok.inj h).symm⟩
      · rintro ⟨b, bs', hb, hbs', rfl⟩
        exact ⟨b, hb, bind_eq_ok.mpr ⟨bs', ih.mpr hbs', rfl⟩⟩

/-- There are results for a list if there is one for each of its members. -/
theorem exists_mapM {f : α → Except ε β} {as : List α} (h : ∀ a ∈ as, ∃ b, f a = .ok b) :
    ∃ bs, as.mapM f = .ok bs := by
  induction as with
  | nil => exact ⟨[], rfl⟩
  | cons a as ih =>
      obtain ⟨⟨b, hb⟩, has⟩ := List.forall_mem_cons.mp h
      obtain ⟨bs, hbs⟩ := ih has
      exact ⟨b :: bs, by rw [List.mapM_cons, hb, hbs]; rfl⟩

/-- Every result for a list is that of a member. -/
theorem exists_of_mem_mapM {f : α → Except ε β} {as : List α} {bs : List β}
    (h : as.mapM f = .ok bs) {b : β} (hb : b ∈ bs) : ∃ a ∈ as, f a = .ok b := by
  have hall := mapM_eq_ok.mp h
  clear h
  induction hall with
  | nil => cases hb
  | cons ha _ ih =>
      rcases List.mem_cons.mp hb with rfl | hb
      · exact ⟨_, List.mem_cons_self, ha⟩
      · obtain ⟨a, hmem, ha⟩ := ih hb
        exact ⟨a, List.mem_cons_of_mem _ hmem, ha⟩

/-- A fault for a list is that of a member. -/
theorem exists_of_mapM_eq_error {f : α → Except ε β} {as : List α} {e : ε}
    (h : as.mapM f = .error e) : ∃ a ∈ as, f a = .error e := by
  induction as with
  | nil => cases h
  | cons a as ih =>
      rw [List.mapM_cons] at h
      rcases bind_eq_error.mp h with ha | ⟨b, -, h⟩
      · exact ⟨a, List.mem_cons_self, ha⟩
      · rcases bind_eq_error.mp h with has | ⟨bs, -, h⟩
        · obtain ⟨a', hmem, ha'⟩ := ih has
          exact ⟨a', List.mem_cons_of_mem _ hmem, ha'⟩
        · cases h

/-- The results for a list of which each is known. -/
theorem mapM_eq_map {f : α → Except ε β} {g : α → β} {as : List α}
    (h : ∀ a ∈ as, f a = .ok (g a)) : as.mapM f = .ok (as.map g) := by
  rw [mapM_eq_ok, List.forall₂_map_right_iff, List.forall₂_same]
  exact h

end

variable {α β : Type}

/-- The run has the given result, whatever the trace before it. -/
def Yields (r : Run α) (x : Except Fault α) : Prop := ∀ t, (resume t r).1 = x

theorem resume_bind (t : Trace) (r : Run α) (f : α → Run β) :
    resume t (r >>= f) = match resume t r with
      | (.ok a, t') => resume t' (f a)
      | (.error e, t') => (.error e, t') := by
  change (StateT.bind (ExceptT.run r) (ExceptT.bindCont f) t : Except Fault β × Trace) = _
  rw [StateT.bind, resume]
  change (match StateT.run (ExceptT.run r) t with
    | (a, s') => ExceptT.bindCont f a s' : Except Fault β × Trace) = _
  rcases StateT.run (ExceptT.run r) t with ⟨a | a, s⟩ <;> rfl

/-- The parts of a result that is not a fault, and the trace between them. -/
theorem resume_bind_eq_ok {t : Trace} {r : Run α} {f : α → Run β} {b : β} :
    (resume t (r >>= f)).1 = .ok b ↔
      ∃ a t', resume t r = (.ok a, t') ∧ (resume t' (f a)).1 = .ok b := by
  rw [resume_bind]
  rcases resume t r with ⟨e | a, t'⟩
  · constructor
    · intro h
      cases h
    · rintro ⟨a, s, h, -⟩
      cases h
  · constructor
    · exact fun h => ⟨a, t', rfl, h⟩
    · rintro ⟨a, s, h, hf⟩
      cases h
      exact hf

theorem resume_tryCatch (t : Trace) (r : Run α) (f : Fault → Run α) :
    resume t (tryCatch r f) = match resume t r with
      | (.ok a, t') => (.ok a, t')
      | (.error e, t') => resume t' (f e) := by
  simp only [resume, tryCatch, tryCatchThe, MonadExceptOf.tryCatch, ExceptT.tryCatch, ExceptT.run,
    ExceptT.mk, StateT.run_bind]
  rcases hres : StateT.run r t with ⟨a | a, s⟩ <;> rfl

namespace Yields

theorem pure (a : α) : Yields (Pure.pure a) (.ok a) := fun _ => rfl

theorem ofExcept (x : Except Fault α) : Yields (Run.ofExcept x) x := fun _ => rfl

/-- A run that fails with the fault of another computation. -/
theorem bind {r : Run α} {x : Except Fault α} {f : α → Run β} {g : α → Except Fault β}
    (hr : Yields r x) (hf : ∀ a, x = .ok a → Yields (f a) (g a)) : Yields (r >>= f) (x >>= g) := by
  intro t
  rw [resume_bind]
  have h := hr t
  rcases hres : resume t r with ⟨e | a, t'⟩
  · rw [hres] at h
    obtain rfl := h
    rfl
  · rw [hres] at h
    obtain rfl := h
    exact hf a rfl t'

/-- A part whose result is not used. -/
theorem andThen {r : Run Unit} {f : Unit → Run β} {y : Except Fault β} (hr : Yields r (.ok ()))
    (hf : Yields (f ()) y) : Yields (r >>= f) y :=
  bind (g := fun _ => y) hr fun _ _ => hf

theorem log (level : Level) (message : String) : Yields (Run.log level message) (.ok ()) := by
  intro t
  rw [Run.log]
  split_ifs <;> rfl

/-- A step after a call of the scorer, if it does not depend on the number of the call. -/
theorem noteCall {call : ScorerCall} {f : ℕ → Run β} {y : Except Fault β}
    (hf : ∀ n, Yields (f n) y) : Yields (Run.noteCall call >>= f) y := by
  intro t
  rw [resume_bind]
  exact hf t.calls.length _

/-- Logging the faults of a run does not change its result. -/
theorem guarded {kinds : List Kind} {context : String} {level : Level} {r : Run α}
    {x : Except Fault α} (hr : Yields r x) : Yields (Run.guarded kinds context level r) x := by
  have hagain : ∀ f : Fault, Yields (do
      if kinds.any f.kind.isA then
        let lead := if context.isEmpty then "" else context ++ ": "
        Run.log level (lead ++ f.kind.name ++ ": " ++ f.text)
      throw f) (.error f : Except Fault α) := by
    intro f
    split_ifs
    all_goals first
      | exact andThen (log level _) fun _ => rfl
      | exact fun _ => rfl
  intro t
  have h := hr t
  rw [Run.guarded, resume_tryCatch]
  rcases hres : resume t r with ⟨e | a, t'⟩
  · rw [hres] at h
    obtain rfl := h
    exact hagain e t'
  · rw [hres] at h
    exact h

theorem mapM {f : α → Run β} {g : α → Except Fault β} {as : List α}
    (h : ∀ a ∈ as, Yields (f a) (g a)) : Yields (as.mapM f) (as.mapM g) := by
  induction as with
  | nil => exact pure []
  | cons a as ih =>
      rw [List.mapM_cons, List.mapM_cons]
      refine bind (h a List.mem_cons_self) fun b _ => ?_
      refine bind (ih fun a' ha' => h a' (List.mem_cons_of_mem a ha')) fun bs _ => ?_
      exact pure (b :: bs)

end Yields

end Corridor.Run
