/-!
# Runs of a step function

A run feeds a list of events to a step function. `Along` judges every step at
the state it starts from, `Throughout` judges every state reached, the first
one included. Two rules carry the inductions: an invariant that each permitted
step keeps holds throughout, and two step properties that agree wherever the
invariant holds agree along the run.

`exec` is a run whose steps may be disabled, and `offer` the step of a
register that takes only some of what it is given.
-/

namespace Lib

variable {σ ε : Type} {step : ε → σ → σ}

def run (step : ε → σ → σ) (s : σ) (es : List ε) : σ := es.foldl (fun s e => step e s) s

def Along (step : ε → σ → σ) (P : σ → ε → Prop) : σ → List ε → Prop
  | _, [] => True
  | s, e :: es => P s e ∧ Along step P (step e s) es

def Throughout (step : ε → σ → σ) (I : σ → Prop) : σ → List ε → Prop
  | s, [] => I s
  | s, e :: es => I s ∧ Throughout step I (step e s) es

@[simp] theorem run_nil (s : σ) : run step s [] = s := rfl

@[simp] theorem run_cons (s : σ) (e : ε) (es : List ε) :
    run step s (e :: es) = run step (step e s) es := rfl

theorem run_append (s : σ) (es fs : List ε) :
    run step s (es ++ fs) = run step (run step s es) fs := List.foldl_append

theorem foldl_run {α : Type} (f : α → List ε) (s : σ) (xs : List α) :
    xs.foldl (fun s x => run step s (f x)) s = run step s (xs.flatMap f) := by
  induction xs generalizing s with
  | nil => rfl
  | cons x xs ih => rw [List.foldl_cons, List.flatMap_cons, run_append, ih]

@[simp] theorem along_nil (P : σ → ε → Prop) (s : σ) : Along step P s [] := trivial

@[simp] theorem along_cons (P : σ → ε → Prop) (s : σ) (e : ε) (es : List ε) :
    Along step P s (e :: es) ↔ P s e ∧ Along step P (step e s) es := .rfl

@[simp] theorem throughout_cons (I : σ → Prop) (s : σ) (e : ε) (es : List ε) :
    Throughout step I s (e :: es) ↔ I s ∧ Throughout step I (step e s) es := .rfl

instance decidableAlong (P : σ → ε → Prop) [∀ s e, Decidable (P s e)] :
    (s : σ) → (es : List ε) → Decidable (Along step P s es)
  | _, [] => isTrue trivial
  | s, e :: es =>
    have := decidableAlong P (step e s) es
    inferInstanceAs (Decidable (P s e ∧ Along step P (step e s) es))

theorem along_append {P : σ → ε → Prop} {s : σ} {es fs : List ε} :
    Along step P s (es ++ fs) ↔ Along step P s es ∧ Along step P (run step s es) fs := by
  induction es generalizing s with
  | nil => simp
  | cons e es ih => simp [ih, and_assoc]

theorem Along.mono {P Q : σ → ε → Prop} (hpq : ∀ s e, P s e → Q s e) {s : σ} {es : List ε}
    (h : Along step P s es) : Along step Q s es := by
  induction es generalizing s with
  | nil => trivial
  | cons e es ih => exact ⟨hpq s e h.1, ih h.2⟩

theorem along_congr {P Q : σ → ε → Prop} (hpq : ∀ s e, P s e ↔ Q s e) (s : σ) (es : List ε) :
    Along step P s es ↔ Along step Q s es :=
  ⟨.mono fun s e => (hpq s e).mp, .mono fun s e => (hpq s e).mpr⟩

/-- The run rule: what every permitted step keeps holds in every state reached. -/
theorem throughout_of_along {I : σ → Prop} {P : σ → ε → Prop}
    (hstep : ∀ s e, I s → P s e → I (step e s)) {s : σ} {es : List ε} (hs : I s)
    (h : Along step P s es) : Throughout step I s es := by
  induction es generalizing s with
  | nil => exact hs
  | cons e es ih => exact ⟨hs, ih (hstep s e hs h.1) h.2⟩

theorem Throughout.start {I : σ → Prop} {s : σ} {es : List ε} (h : Throughout step I s es) : I s := by
  cases es with
  | nil => exact h
  | cons e es => exact h.1

theorem Throughout.final {I : σ → Prop} {s : σ} {es : List ε} (h : Throughout step I s es) :
    I (run step s es) := by
  induction es generalizing s with
  | nil => exact h
  | cons e es ih => exact ih h.2

theorem Throughout.mono {I J : σ → Prop} (hij : ∀ s, I s → J s) {s : σ} {es : List ε}
    (h : Throughout step I s es) : Throughout step J s es := by
  induction es generalizing s with
  | nil => exact hij s h
  | cons e es ih => exact ⟨hij s h.1, ih h.2⟩

theorem Throughout.and {I J : σ → Prop} {s : σ} {es : List ε} (h : Throughout step I s es)
    (h' : Throughout step J s es) : Throughout step (fun s => I s ∧ J s) s es := by
  induction es generalizing s with
  | nil => exact ⟨h, h'⟩
  | cons e es ih => exact ⟨⟨h.1, h'.1⟩, ih h.2 h'.2⟩

theorem throughout_of_invariant {I : σ → Prop} (hstep : ∀ s e, I s → I (step e s)) {s : σ} (hs : I s)
    (es : List ε) : Throughout step I s es := by
  induction es generalizing s with
  | nil => exact hs
  | cons e es ih => exact ⟨hs, ih (hstep s e hs)⟩

theorem along_of_invariant {I : σ → Prop} {P : σ → ε → Prop} (hstep : ∀ s e, I s → I (step e s))
    (hp : ∀ s e, I s → P s e) {s : σ} (hs : I s) (es : List ε) : Along step P s es := by
  induction es generalizing s with
  | nil => trivial
  | cons e es ih => exact ⟨hp s e hs, ih (hstep s e hs)⟩

section

variable {I : σ → Prop} {p : ε → Prop} (hstep : ∀ s e, I s → p e → I (step e s))

include hstep

/-- An invariant that all events of some kind keep, and a run of such events. -/
theorem throughout_of_permitted {s : σ} {es : List ε} (hs : I s) (h : ∀ e ∈ es, p e) : Throughout step I s es := by
  induction es generalizing s with
  | nil => exact hs
  | cons e es ih =>
    rw [List.forall_mem_cons] at h
    exact ⟨hs, ih (hstep s e hs h.1) h.2⟩

theorem along_of_permitted {Q : σ → ε → Prop} (hq : ∀ s e, I s → p e → Q s e) {s : σ} {es : List ε} (hs : I s)
    (h : ∀ e ∈ es, p e) : Along step Q s es := by
  induction es generalizing s with
  | nil => trivial
  | cons e es ih =>
    rw [List.forall_mem_cons] at h
    exact ⟨hq s e hs h.1, ih (hstep s e hs h.1) h.2⟩

end

theorem along_mono_of_invariant {I : σ → Prop} {P Q : σ → ε → Prop} (hstep : ∀ s e, I s → I (step e s))
    (hpq : ∀ s e, I s → P s e → Q s e) {s : σ} {es : List ε} (hs : I s) (h : Along step P s es) :
    Along step Q s es := by
  induction es generalizing s with
  | nil => trivial
  | cons e es ih => exact ⟨hpq s e hs h.1, ih (hstep s e hs) h.2⟩

theorem along_congr_of_invariant {I : σ → Prop} {P Q : σ → ε → Prop}
    (hstep : ∀ s e, I s → I (step e s)) (hpq : ∀ s e, I s → (P s e ↔ Q s e)) {s : σ} {es : List ε}
    (hs : I s) : Along step P s es ↔ Along step Q s es :=
  ⟨along_mono_of_invariant hstep (fun s e hs => (hpq s e hs).mp) hs,
    along_mono_of_invariant hstep (fun s e hs => (hpq s e hs).mpr) hs⟩

/-- The same where only the permitted steps keep the invariant: up to the first
step that is not, the two have agreed. -/
theorem along_congr_of_kept {I : σ → Prop} {P Q : σ → ε → Prop}
    (hstep : ∀ s e, I s → P s e → I (step e s)) (hpq : ∀ s e, I s → (P s e ↔ Q s e)) {s : σ} {es : List ε}
    (hs : I s) : Along step P s es ↔ Along step Q s es := by
  induction es generalizing s with
  | nil => simp
  | cons e es ih =>
    rw [along_cons, along_cons, ← hpq s e hs]
    exact and_congr_right fun he => ih (hstep s e hs he)

/-- Where each step keeps `J` exactly when it is permitted, `J` holds throughout
the runs whose steps all are. -/
theorem throughout_iff_along {I J : σ → Prop} {P : σ → ε → Prop} (hstep : ∀ s e, I s → I (step e s))
    (hkeeps : ∀ s e, I s → J s → (J (step e s) ↔ P s e)) {s : σ} {es : List ε} (hs : I s) (hj : J s) :
    Throughout step J s es ↔ Along step P s es := by
  induction es generalizing s with
  | nil => simpa [Throughout] using hj
  | cons e es ih =>
    simp only [throughout_cons, along_cons, hj, true_and]
    constructor
    · intro h
      exact ⟨(hkeeps s e hs hj).mp h.start, (ih (hstep s e hs) h.start).mp h⟩
    · rintro ⟨he, h⟩
      have hnext := (hkeeps s e hs hj).mpr he
      exact (ih (hstep s e hs) hnext).mpr h

/-- The same for a list of events of which each is judged alone; nothing is asked of
`I` once `J` is lost. -/
theorem throughout_iff_forall {I J : σ → Prop} {p : ε → Prop} {es : List ε}
    (hstep : ∀ e ∈ es, ∀ s, I s → J s → p e → I (step e s))
    (hkeeps : ∀ e ∈ es, ∀ s, I s → J s → (J (step e s) ↔ p e)) {s : σ} (hs : I s) (hj : J s) :
    Throughout step J s es ↔ ∀ e ∈ es, p e := by
  induction es generalizing s with
  | nil => exact iff_of_true hj nofun
  | cons e es ih =>
    have hmem := List.mem_cons_self (a := e) (l := es)
    rw [throughout_cons, and_iff_right hj, List.forall_mem_cons]
    have hrest : p e → (Throughout step J (step e s) es ↔ ∀ e ∈ es, p e) := fun he =>
      ih (fun e he => hstep e (List.mem_cons_of_mem _ he)) (fun e he => hkeeps e (List.mem_cons_of_mem _ he))
        (hstep e hmem s hs hj he) ((hkeeps e hmem s hs hj).mpr he)
    constructor
    · intro h
      have he := (hkeeps e hmem s hs hj).mp h.start
      exact ⟨he, (hrest he).mp h⟩
    · rintro ⟨he, h⟩
      exact (hrest he).mpr h

/-- A view of the state that moves on its own is a run of its own. -/
theorem run_view {τ δ : Type} {step' : δ → τ → τ} (f : σ → τ) (g : ε → δ)
    (h : ∀ s e, f (step e s) = step' (g e) (f s)) (s : σ) (es : List ε) :
    f (run step s es) = run step' (f s) (es.map g) := by
  induction es generalizing s with
  | nil => rfl
  | cons e es ih => simp only [run_cons, List.map_cons, ih, h]

theorem run_view_of_invariant {τ δ : Type} {step' : δ → τ → τ} {I : σ → Prop} (f : σ → τ) (g : ε → δ)
    (hstep : ∀ s e, I s → I (step e s)) (h : ∀ s e, I s → f (step e s) = step' (g e) (f s)) {s : σ}
    (hs : I s) (es : List ε) : f (run step s es) = run step' (f s) (es.map g) := by
  induction es generalizing s with
  | nil => rfl
  | cons e es ih => simp only [run_cons, List.map_cons, ih (hstep s e hs), h s e hs]

theorem along_view_of_invariant {τ δ : Type} {step' : δ → τ → τ} {I : σ → Prop} {P : σ → ε → Prop}
    {Q : τ → δ → Prop} (f : σ → τ) (g : ε → δ) (hstep : ∀ s e, I s → I (step e s))
    (h : ∀ s e, I s → f (step e s) = step' (g e) (f s)) (hpq : ∀ s e, I s → (P s e ↔ Q (f s) (g e)))
    {s : σ} (hs : I s) (es : List ε) : Along step P s es ↔ Along step' Q (f s) (es.map g) := by
  induction es generalizing s with
  | nil => simp
  | cons e es ih => simp only [along_cons, List.map_cons, hpq s e hs, ih (hstep s e hs), h s e hs]

-- ---------------------------------------------------------------------------
-- Moments of a run
-- ---------------------------------------------------------------------------

theorem run_take_succ {s : σ} {es : List ε} {i : Nat} (h : i < es.length) :
    run step s (es.take (i + 1)) = step es[i] (run step s (es.take i)) := by
  rw [List.take_succ_eq_append_getElem h, run_append]
  rfl

theorem along_iff_forall_take {P : σ → ε → Prop} {s : σ} {es : List ε} :
    Along step P s es ↔ ∀ i, ∀ h : i < es.length, P (run step s (es.take i)) es[i] := by
  induction es generalizing s with
  | nil => simp
  | cons e es ih =>
    rw [along_cons, ih]
    constructor
    · rintro ⟨he, hes⟩ i hi
      cases i with
      | zero => exact he
      | succ i => exact hes i (Nat.lt_of_succ_lt_succ hi)
    · intro h
      exact ⟨h 0 (Nat.succ_pos _), fun i hi => h (i + 1) (Nat.succ_lt_succ hi)⟩

theorem Throughout.take {I : σ → Prop} {s : σ} {es : List ε} (h : Throughout step I s es) (i : Nat) :
    I (run step s (es.take i)) := by
  induction es generalizing s i with
  | nil =>
    rw [List.take_nil]
    exact h
  | cons e es ih =>
    cases i with
    | zero => exact h.1
    | succ i => exact ih h.2 i

/-- A preorder in which every permitted step goes up relates any two moments. -/
theorem related_of_along {R : σ → σ → Prop} {P : σ → ε → Prop} (hrefl : ∀ s, R s s)
    (htrans : ∀ a b c, R a b → R b c → R a c) (hstep : ∀ s e, P s e → R s (step e s)) {s : σ} {es : List ε}
    (h : Along step P s es) {i j : Nat} (hij : i ≤ j) :
    R (run step s (es.take i)) (run step s (es.take j)) := by
  obtain ⟨d, rfl⟩ := Nat.exists_eq_add_of_le hij
  induction d with
  | zero => exact hrefl _
  | succ d ih =>
    refine htrans _ _ _ (ih (Nat.le_add_right i d)) ?_
    rw [← Nat.add_assoc]
    by_cases hd : i + d < es.length
    · rw [run_take_succ hd]
      exact hstep _ _ (along_iff_forall_take.mp h _ hd)
    · rw [List.take_of_length_le (by omega), List.take_of_length_le (by omega)]
      exact hrefl _

-- ---------------------------------------------------------------------------
-- Registers
-- ---------------------------------------------------------------------------

/-- Offers `x` to a register that takes what `p` accepts. -/
def offer {α : Type} (p : α → Bool) (x old : α) : α := if p x then x else old

theorem offer_decide {α : Type} (P : α → Prop) [DecidablePred P] (x old : α) :
    offer (fun y => decide (P y)) x old = if P x then x else old := by
  by_cases h : P x <;> simp [offer, h]

theorem run_offer {α : Type} (p : α → Bool) (d : α) (xs : List α) :
    run (offer p) d xs = (xs.filter p).getLastD d := by
  induction xs generalizing d with
  | nil => rfl
  | cons x xs ih =>
    rw [run_cons, ih, List.filter_cons]
    cases hx : p x with
    | true => simp only [offer, hx, if_true, List.getLastD_cons]
    | false => simp [offer, hx]

theorem offer_offer {α : Type} (p : α → Bool) (x old : α) : offer p x (offer p x old) = offer p x old := by
  cases h : p x <;> simp [offer, h]

theorem accepted_of_offer_eq {α : Type} {p : α → Bool} {x a b : α} (hab : a ≠ b)
    (h : offer p x a = offer p x b) : p x := by
  cases hx : p x with
  | true => rfl
  | false => exact absurd (by simpa [offer, hx] using h) hab

-- ---------------------------------------------------------------------------
-- Steps that may be disabled
-- ---------------------------------------------------------------------------

/-- The state after a schedule, if each of its steps was enabled. -/
def exec (step : ε → σ → Option σ) (s : σ) : List ε → Option σ
  | [] => some s
  | e :: es => (step e s).bind fun s => exec step s es

section Exec

variable {step : ε → σ → Option σ}

@[simp] theorem exec_nil (s : σ) : exec step s [] = some s := rfl

theorem exec_cons {s s' : σ} {e : ε} {es : List ε} :
    exec step s (e :: es) = some s' ↔ ∃ m, step e s = some m ∧ exec step m es = some s' :=
  Option.bind_eq_some_iff

theorem exec_append {s s' : σ} {es fs : List ε} :
    exec step s (es ++ fs) = some s' ↔ ∃ m, exec step s es = some m ∧ exec step m fs = some s' := by
  induction es generalizing s with
  | nil => simp
  | cons e es ih =>
    simp only [List.cons_append, exec_cons, ih]
    exact ⟨fun ⟨m, h, m', h', h''⟩ => ⟨m', ⟨m, h, h'⟩, h''⟩,
      fun ⟨m', ⟨m, h, h'⟩, h''⟩ => ⟨m, h, m', h', h''⟩⟩

/-- The frame rule: what every step of the schedule keeps, the schedule keeps. -/
theorem exec_keeps {I : σ → Prop} {es : List ε}
    (hstep : ∀ e ∈ es, ∀ s s', step e s = some s' → I s → I s') {s s' : σ}
    (h : exec step s es = some s') (hs : I s) : I s' := by
  induction es generalizing s with
  | nil => cases h; exact hs
  | cons e es ih =>
    obtain ⟨m, hm, h⟩ := exec_cons.mp h
    exact ih (fun e he => hstep e (List.mem_cons_of_mem _ he)) h (hstep e List.mem_cons_self s m hm hs)

end Exec

theorem last_picked {α : Type} (p : α → Bool) (l : List α) :
    (∀ x ∈ l, p x = false) ∨ ∃ before x after, l = before ++ x :: after ∧ p x ∧ ∀ y ∈ after, p y = false := by
  induction l with
  | nil => exact .inl nofun
  | cons x l ih =>
    rcases ih with h | ⟨before, y, after, rfl, hy, hafter⟩
    · cases hx : p x with
      | true => exact .inr ⟨[], x, l, rfl, hx, h⟩
      | false => exact .inl (List.forall_mem_cons.mpr ⟨hx, h⟩)
    · exact .inr ⟨x :: before, y, after, rfl, hy, hafter⟩

end Lib
