import Mathlib.Data.List.Forall2

/-!
# How a step ends

Draws and lines of descent are steps on a state that may fail, and what was done to the state before a failure stays
done. `Ends` says how such a step ends, with a result or with a failure, and `Ends.bind` and `ends_mapM` how that is
found out part by part. Two steps can also be followed side by side, from states that correspond: they are `Coupled`.
-/

namespace ProgramArt

variable {ε σ α β γ : Type}

/-- A step from `s` ends with a result of which `done` holds, or with a failure of which `failed` holds, in
each case together with the state that it leaves. -/
structure Ends (m : ExceptT ε (StateM σ) α) (s : σ) (done : α → σ → Prop) (failed : ε → σ → Prop) : Prop where
  outcome : match m s with
    | (.ok a, s') => done a s'
    | (.error e, s') => failed e s'

section

variable {m : ExceptT ε (StateM σ) α} {f : α → ExceptT ε (StateM σ) β} {s : σ}
  {done done' : α → σ → Prop} {failed failed' : ε → σ → Prop} {after : β → σ → Prop}

/-- A step after another one, on a state: it is taken only if the first one succeeds. -/
theorem bind_apply (m : ExceptT ε (StateM σ) α) (f : α → ExceptT ε (StateM σ) β) (s : σ) :
    (m >>= f) s
      = match m s with
        | (.ok a, s') => f a s'
        | (.error e, s') => (.error e, s') := by
  change (match m s with | (outcome, s') => ExceptT.bindCont f outcome s') = _
  rcases m s with ⟨a | e, s'⟩ <;> rfl

/-- A step ends with a result if it is made of two that do. -/
theorem bind_eq_ok {b : β} {s'' : σ} :
    (m >>= f) s = (.ok b, s'') ↔ ∃ a s', m s = (.ok a, s') ∧ f a s' = (.ok b, s'') := by
  rw [bind_apply]
  constructor
  · intro h
    rcases hm : m s with ⟨e | a, s'⟩
    · rw [hm] at h
      cases h
    · rw [hm] at h
      exact ⟨a, s', rfl, h⟩
  · rintro ⟨a, s', hm, hf⟩
    rw [hm]
    exact hf

/-- A step ends with a failure if its first part does, or its second part after the first. -/
theorem bind_eq_error {e : ε} {s'' : σ} :
    (m >>= f) s = (.error e, s'')
      ↔ m s = (.error e, s'') ∨ ∃ a s', m s = (.ok a, s') ∧ f a s' = (.error e, s'') := by
  rw [bind_apply]
  constructor
  · intro h
    rcases hm : m s with ⟨e' | a, s'⟩
    · rw [hm] at h
      cases h
      exact .inl rfl
    · rw [hm] at h
      exact .inr ⟨a, s', rfl, h⟩
  · rintro (hm | ⟨a, s', hm, hf⟩)
    · rw [hm]
    · rw [hm]
      exact hf

theorem ends_pure {a : α} (h : done a s) : Ends (pure a) s done failed :=
  ⟨h⟩

theorem ends_throw {e : ε} (h : failed e s) : Ends (throw e) s done failed :=
  ⟨h⟩

/-- A step that has succeeded did so as `Ends` says. -/
theorem Ends.of_ok {a : α} {s' : σ} (h : Ends m s done failed) (hm : m s = (.ok a, s')) : done a s' := by
  have houtcome := h.outcome
  rwa [hm] at houtcome

/-- A step that has failed did so as `Ends` says. -/
theorem Ends.of_error {e : ε} {s' : σ} (h : Ends m s done failed) (hm : m s = (.error e, s')) : failed e s' := by
  have houtcome := h.outcome
  rwa [hm] at houtcome

/-- A weaker claim about both ends. -/
theorem Ends.mono (h : Ends m s done failed) (hdone : ∀ a s', done a s' → done' a s')
    (hfailed : ∀ e s', failed e s' → failed' e s') : Ends m s done' failed' := by
  constructor
  rcases hm : m s with ⟨e | a, s'⟩
  · exact hfailed e s' (h.of_error hm)
  · exact hdone a s' (h.of_ok hm)

theorem Ends.mono_done (h : Ends m s done failed) (hdone : ∀ a s', done a s' → done' a s') :
    Ends m s done' failed :=
  h.mono hdone fun _ _ he => he

theorem Ends.mono_failed (h : Ends m s done failed) (hfailed : ∀ e s', failed e s' → failed' e s') :
    Ends m s done failed' :=
  h.mono (fun _ _ ha => ha) hfailed

/-- One step after the other. -/
theorem Ends.bind (h : Ends m s done failed) (hf : ∀ a s', done a s' → Ends (f a) s' after failed) :
    Ends (m >>= f) s after failed := by
  constructor
  rw [bind_apply]
  rcases hm : m s with ⟨e | a, s'⟩
  · exact h.of_error hm
  · exact (hf a s' (h.of_ok hm)).outcome

end

/-- The same step for every member of a list, in order. -/
theorem ends_mapM {f : α → ExceptT ε (StateM σ) β} {rel : α → β → Prop} {failed : ε → Prop} {items : List α}
    (h : ∀ item ∈ items, ∀ s, Ends (f item) s (fun b _ => rel item b) (fun e _ => failed e)) (s : σ) :
    Ends (items.mapM f) s (fun results _ => List.Forall₂ rel items results) (fun e _ => failed e) := by
  induction items generalizing s with
  | nil => exact ends_pure List.Forall₂.nil
  | cons item items ih =>
    rw [List.mapM_cons]
    refine (h item List.mem_cons_self s).bind ?_
    intro result s' hresult
    refine (ih (fun item hitem => h item (List.mem_cons_of_mem _ hitem)) s').bind ?_
    intro results s'' hresults
    exact ends_pure (List.Forall₂.cons hresult hresults)

/-! ## Two steps side by side -/

/-- If two steps from states that correspond both end with a result, the results and the states correspond
again. -/
structure Coupled (states : σ → σ → Prop) (results : α → β → Prop) (m : ExceptT ε (StateM σ) α)
    (n : ExceptT ε (StateM σ) β) : Prop where
  both : ∀ {s t a b s' t'}, states s t → m s = (.ok a, s') → n t = (.ok b, t') → results a b ∧ states s' t'

/-- Two steps after two others, side by side. -/
theorem Coupled.bind {δ : Type} {states : σ → σ → Prop} {results : α → β → Prop} {results' : γ → δ → Prop}
    {m : ExceptT ε (StateM σ) α} {n : ExceptT ε (StateM σ) β} {f : α → ExceptT ε (StateM σ) γ}
    {g : β → ExceptT ε (StateM σ) δ} (h : Coupled states results m n)
    (hf : ∀ a b, results a b → Coupled states results' (f a) (g b)) :
    Coupled states results' (m >>= f) (n >>= g) := by
  constructor
  intro s t c d s'' t'' hstates hm hn
  obtain ⟨a, s', ha, hc⟩ := bind_eq_ok.mp hm
  obtain ⟨b, t', hb, hd⟩ := bind_eq_ok.mp hn
  obtain ⟨hresults, hstates'⟩ := h.both hstates ha hb
  exact (hf a b hresults).both hstates' hc hd

theorem coupled_pure {states : σ → σ → Prop} {results : α → β → Prop} {a : α} {b : β} (h : results a b) :
    Coupled states results (pure a : ExceptT ε (StateM σ) α) (pure b) := by
  constructor
  intro s t a' b' s' t' hstates ha hb
  cases ha
  cases hb
  exact ⟨h, hstates⟩

theorem coupled_throw {states : σ → σ → Prop} {results : α → β → Prop} {e : ε} {n : ExceptT ε (StateM σ) β} :
    Coupled states results (throw e) n := by
  constructor
  intro s t a b s' t' hstates ha hb
  cases ha

theorem coupled_get {states : σ → σ → Prop} : Coupled (ε := ε) states states get get := by
  constructor
  intro s t a b s' t' hstates ha hb
  cases ha
  cases hb
  exact ⟨hstates, hstates⟩

/-! ## Steps without a state -/

/-- If a step without a state fails, `failed` holds of the failure. -/
def FailsOnly (failed : ε → Prop) (outcome : Except ε α) : Prop :=
  ∀ e, outcome = .error e → failed e

section

variable {failed : ε → Prop}

theorem failsOnly_ok (a : α) : FailsOnly failed (.ok a) := by
  intro e h
  cases h

theorem failsOnly_error {e : ε} (h : failed e) : FailsOnly failed (.error e : Except ε α) := by
  intro e' h'
  cases h'
  exact h

/-- One outcome after another. -/
theorem FailsOnly.bind {outcome : Except ε α} {f : α → Except ε β} (h : FailsOnly failed outcome)
    (hf : ∀ a, FailsOnly failed (f a)) : FailsOnly failed (outcome >>= f) := by
  cases outcome with
  | error e => exact failsOnly_error (h e rfl)
  | ok a => exact hf a

/-- A step without a state succeeds if it is made of two that do. -/
theorem except_bind_eq_ok {outcome : Except ε α} {f : α → Except ε β} {b : β} :
    (outcome >>= f) = .ok b ↔ ∃ a, outcome = .ok a ∧ f a = .ok b := by
  cases outcome with
  | error e => simp [bind, Except.bind]
  | ok a => simp [bind, Except.bind]

/-- An outcome for every member of a list. -/
theorem failsOnly_mapM {f : α → Except ε β} (hf : ∀ a, FailsOnly failed (f a)) (items : List α) :
    FailsOnly failed (items.mapM f) := by
  induction items with
  | nil => exact failsOnly_ok []
  | cons item items ih =>
    rw [List.mapM_cons]
    exact (hf item).bind fun b => ih.bind fun bs => failsOnly_ok (b :: bs)

end

section

variable {f : α → Except ε β} {items : List α}

/-- The same step for every member of a list succeeds if it does for all of them. -/
theorem mapM_eq_ok_iff {results : List β} :
    items.mapM f = .ok results ↔ List.Forall₂ (fun item result => f item = .ok result) items results := by
  induction items generalizing results with
  | nil => simp [pure, Except.pure, eq_comm]
  | cons item items ih =>
    rw [List.mapM_cons, List.forall₂_cons_left_iff]
    cases hitem : f item with
    | error e => simp [bind, Except.bind]
    | ok result =>
      cases hrest : items.mapM f with
      | error e =>
        simp only [← ih, hrest]
        simp [bind, Except.bind]
      | ok rest =>
        simp only [← ih, hrest]
        simp [bind, Except.bind, pure, Except.pure, eq_comm]

/-- Otherwise it fails as it does for the first member for which it fails. -/
theorem mapM_eq_error_iff {e : ε} :
    items.mapM f = .error e ↔ ∃ before item after, items = before ++ item :: after ∧
      (∀ earlier ∈ before, ∃ result, f earlier = .ok result) ∧ f item = .error e := by
  induction items with
  | nil => simp [pure, Except.pure]
  | cons item items ih =>
    rw [List.mapM_cons]
    constructor
    · intro h
      cases hitem : f item with
      | error e' =>
        rw [hitem] at h
        cases h
        exact ⟨[], item, items, rfl, by simp, hitem⟩
      | ok result =>
        cases hrest : items.mapM f with
        | ok rest =>
          rw [hitem, hrest] at h
          cases h
        | error e' =>
          rw [hitem, hrest] at h
          cases h
          obtain ⟨before, other, after, rfl, hbefore, hother⟩ := ih.mp hrest
          refine ⟨item :: before, other, after, rfl, ?_, hother⟩
          exact List.forall_mem_cons.mpr ⟨⟨result, hitem⟩, hbefore⟩
    · rintro ⟨before, other, after, hsplit, hbefore, hother⟩
      cases before with
      | nil =>
        obtain ⟨rfl, rfl⟩ := List.cons.inj hsplit
        rw [hother]
        rfl
      | cons first before =>
        obtain ⟨rfl, rfl⟩ := List.cons.inj hsplit
        rw [List.forall_mem_cons] at hbefore
        obtain ⟨⟨result, hresult⟩, hbefore⟩ := hbefore
        rw [hresult, ih.mpr ⟨before, other, after, rfl, hbefore, hother⟩]
        rfl

end

end ProgramArt
