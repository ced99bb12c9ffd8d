import Mathlib

/-!
# Programs with a state and an early exit

A `Prog ε σ α` reads and changes a state of type `σ` and either returns a value of type `α` or
stops with a signal of type `ε`. Stopping keeps every change made so far.

* `Prog.attempt` turns a signal into a value, which is how a caller intercepts it.
* `Prog.Within R x` says that what `x` does to the state stays inside `R`, whether it returns or
  stops.
* `Prog.Gives Q x` says that every value `x` returns satisfies `Q`, and `Prog.Raises Q x` that every
  signal `x` stops with does.
* `Prog.Triple P x Q E` is the pre- and postcondition form, and `Prog.Maintains P x` an invariant's.
-/

theorem Except.bind_eq_ok {ε α β : Type} {x : Except ε α} {f : α → Except ε β} {r : β}
    (h : (x >>= f) = .ok r) : ∃ a, x = .ok a ∧ f a = .ok r := by
  cases x with
  | error e => cases h
  | ok a => exact ⟨a, rfl, h⟩

/-- A program over the state `σ` that returns an `α` or stops with an `ε`. -/
def Prog (ε σ α : Type) : Type := σ → Except ε α × σ

namespace Prog

open List

variable {ε σ α β : Type}

/-- Return a value and leave the state alone. -/
protected def pure (a : α) : Prog ε σ α := fun s => (.ok a, s)

/-- Run `x`, then `f` on its value; a signal of `x` skips `f`. -/
protected def bind (x : Prog ε σ α) (f : α → Prog ε σ β) : Prog ε σ β := fun s =>
  match x s with
  | (.ok a, s') => f a s'
  | (.error e, s') => (.error e, s')

instance : Monad (Prog ε σ) where
  pure := Prog.pure
  bind := Prog.bind

/-- Read a part of the state. -/
def gets (f : σ → α) : Prog ε σ α := fun s => (.ok (f s), s)

/-- Change the state. -/
def modify (f : σ → σ) : Prog ε σ Unit := fun s => (.ok (), f s)

/-- Change the state and return a value computed from it. -/
def update (f : σ → α × σ) : Prog ε σ α := fun s => (.ok (f s).1, (f s).2)

/-- Stop with a signal. -/
def throw (e : ε) : Prog ε σ α := fun s => (.error e, s)

/-- Return the value of a result, or stop with its signal. -/
def ofExcept : Except ε α → Prog ε σ α
  | .ok a => Prog.pure a
  | .error e => throw e

/-- Run `x` and return how it ended; the state changes of `x` stay. -/
def attempt (x : Prog ε σ α) : Prog ε σ (Except ε α) := fun s => (.ok (x s).1, (x s).2)

def forEach : List α → (α → Prog ε σ Unit) → Prog ε σ Unit
  | [], _ => Prog.pure ()
  | a :: as, f => f a >>= fun _ => forEach as f

section run

variable (s : σ)

@[simp] theorem pure_run (a : α) : (pure a : Prog ε σ α) s = (.ok a, s) := rfl

theorem bind_run (x : Prog ε σ α) (f : α → Prog ε σ β) :
    (x >>= f) s = match x s with
      | (.ok a, s') => f a s'
      | (.error e, s') => (.error e, s') := rfl

variable {f : α → Prog ε σ β}

theorem bind_run_ok {x : Prog ε σ α} {a : α} {s s' : σ}
    (h : x s = (.ok a, s')) : (x >>= f) s = f a s' := by rw [bind_run, h]

theorem bind_run_error {x : Prog ε σ α} {e : ε} {s s' : σ}
    (h : x s = (.error e, s')) : (x >>= f) s = (.error e, s') := by rw [bind_run, h]

@[simp] theorem gets_run (f : σ → α) : (gets f : Prog ε σ α) s = (.ok (f s), s) := rfl

@[simp] theorem modify_run (f : σ → σ) : (modify f : Prog ε σ Unit) s = (.ok (), f s) := rfl

@[simp] theorem update_run (f : σ → α × σ) :
    (update f : Prog ε σ α) s = (.ok (f s).1, (f s).2) := rfl

@[simp] theorem throw_run (e : ε) : (throw e : Prog ε σ α) s = (.error e, s) := rfl

@[simp] theorem attempt_run (x : Prog ε σ α) : attempt x s = (.ok (x s).1, (x s).2) := rfl

@[simp] theorem ofExcept_run (r : Except ε α) : (ofExcept r : Prog ε σ α) s = (r, s) := by
  cases r <;> rfl

theorem forEach_filter {l : List α} {f : α → Prog ε σ Unit} {g : α → Bool}
    (h : ∀ a ∈ l, g a = false → f a = pure ()) : forEach l f = forEach (l.filter g) f := by
  induction l with
  | nil => rfl
  | cons a as ih =>
    have has := ih fun b hb => h b (.tail _ hb)
    cases hg : g a with
    | true => rw [filter_cons_of_pos hg, forEach, forEach, has]
    | false =>
      rw [filter_cons_of_neg (by simp [hg]), forEach, h a (.head _) hg, ← has]
      rfl

theorem bind_eq_ok {x : Prog ε σ α} {s s' : σ} {b : β}
    (h : (x >>= f) s = (.ok b, s')) : ∃ a t, x s = (.ok a, t) ∧ f a t = (.ok b, s') := by
  rw [bind_run] at h
  split at h
  · exact ⟨_, _, by assumption, h⟩
  · simp at h

end run

/-! ## What a program may do to the state -/

/-- Every run of `x`, returning or not, changes the state within `R`. -/
def Within (R : σ → σ → Prop) (x : Prog ε σ α) : Prop := ∀ s, R s (x s).2

/-- The same from one start state. -/
def WithinAt (R : σ → σ → Prop) (s : σ) (x : Prog ε σ α) : Prop := R s (x s).2

section within

variable {R S : σ → σ → Prop} {x : Prog ε σ α}

theorem Within.at (h : Within R x) (s : σ) : WithinAt R s x := h s

theorem Within.of_run (h : Within R x) {s s' : σ} {r : Except ε α}
    (hr : x s = (r, s')) : R s s' := by
  have hs := h s
  rw [hr] at hs
  exact hs

theorem Within.mono (h : Within R x) (hRS : ∀ s t, R s t → S s t) :
    Within S x := fun s => hRS _ _ (h s)

variable [Std.Refl R]

protected theorem Within.pure (a : α) : Within R (pure a : Prog ε σ α) := fun s => Std.Refl.refl s

protected theorem Within.throw (e : ε) : Within R (throw e : Prog ε σ α) := fun s => Std.Refl.refl s

theorem within_gets (f : σ → α) : Within R (gets f : Prog ε σ α) := fun s => Std.Refl.refl s

protected theorem Within.ofExcept (r : Except ε α) : Within R (ofExcept r : Prog ε σ α) :=
  fun s => by
  rw [ofExcept_run]
  exact Std.Refl.refl s

omit [Std.Refl R] in
protected theorem Within.modify {f : σ → σ} (h : ∀ s, R s (f s)) :
    Within R (modify f : Prog ε σ Unit) := h

omit [Std.Refl R] in
protected theorem Within.update {f : σ → α × σ} (h : ∀ s, R s (f s).2) :
    Within R (update f : Prog ε σ α) := h

omit [Std.Refl R] in
theorem Within.attempt (h : Within R x) : Within R (attempt x) := h

variable [IsTrans σ R] {f : α → Prog ε σ β}

omit [Std.Refl R] in
theorem WithinAt.bind {s : σ} (hx : WithinAt R s x)
    (hf : ∀ a t, x s = (.ok a, t) → WithinAt R t (f a)) : WithinAt R s (x >>= f) := by
  unfold WithinAt at *
  rw [bind_run]
  rcases hr : x s with ⟨r | a, t⟩
  · simpa [hr] using hx
  · have h1 : R s t := by simpa [hr] using hx
    exact IsTrans.trans _ _ _ h1 (hf a t hr)

omit [Std.Refl R] in
theorem Within.bind (hx : Within R x) (hf : ∀ a, Within R (f a)) : Within R (x >>= f) := fun s =>
  WithinAt.bind (hx s) fun a t _ => hf a t

theorem Within.then_pure {g : α → β} (hx : Within R x) : Within R (x >>= fun a => pure (g a)) :=
  hx.bind fun _ => Within.pure _

omit [Std.Refl R] [IsTrans σ R] in
theorem withinAt_gets_bind {g : σ → α} {s : σ}
    (h : WithinAt R s (f (g s))) : WithinAt R s (gets g >>= f) := h

omit [Std.Refl R] [IsTrans σ R] in
theorem within_gets_bind {g : σ → α} (h : ∀ s, WithinAt R s (f (g s))) :
    Within R (gets g >>= f) := h

protected theorem Within.forEach {l : List α} {f : α → Prog ε σ Unit}
    (h : ∀ a ∈ l, Within R (f a)) :
    Within R (forEach l f) := by
  induction l with
  | nil => exact Within.pure ()
  | cons a as ih =>
    refine .bind (h a (.head _)) fun _ => ?_
    exact ih fun b hb => h b (.tail _ hb)

end within

/-! ## What a program returns -/

/-- Every value that `x` returns satisfies `Q`. -/
def Gives (Q : α → Prop) (x : Prog ε σ α) : Prop := ∀ s a s', x s = (.ok a, s') → Q a

/-- The same from one start state. -/
def GivesAt (s : σ) (Q : α → Prop) (x : Prog ε σ α) : Prop := ∀ a s', x s = (.ok a, s') → Q a

section gives

variable {Q : α → Prop} {P : β → Prop} {x : Prog ε σ α}

theorem Gives.at (h : Gives Q x) (s : σ) : GivesAt s Q x := h s

protected theorem Gives.pure {a : α} (h : Q a) : Gives Q (pure a : Prog ε σ α) := by
  intro s a' s' hr
  obtain ⟨hr, -⟩ := Prod.mk.inj hr
  cases hr
  exact h

variable {f : α → Prog ε σ β}

theorem GivesAt.bind {s : σ}
    (hf : ∀ a t, x s = (.ok a, t) → GivesAt t P (f a)) : GivesAt s P (x >>= f) := by
  intro b s' hr
  obtain ⟨a, t, hx, hr⟩ := bind_eq_ok hr
  exact hf a t hx b s' hr

theorem Gives.bind (hx : Gives Q x) (hf : ∀ a, Q a → Gives P (f a)) : Gives P (x >>= f) := fun s =>
  GivesAt.bind fun a t h => (hf a (hx s a t h)).at t

theorem gives_bind (hf : ∀ a, Gives P (f a)) :
    Gives P (x >>= f) := fun _ => GivesAt.bind fun a t _ => (hf a).at t

theorem givesAt_gets_bind {g : σ → α} {s : σ}
    (h : GivesAt s P (f (g s))) : GivesAt s P (gets g >>= f) := h

end gives

/-! ## Which signals a program stops with -/

/-- Every signal that `x` stops with satisfies `Q`. -/
def Raises (Q : ε → Prop) (x : Prog ε σ α) : Prop := ∀ s e s', x s = (.error e, s') → Q e

section raises

variable {Q : ε → Prop}

protected theorem Raises.pure (a : α) : Raises Q (pure a : Prog ε σ α) := fun _ _ _ h =>
  nomatch (Prod.mk.inj h).1

protected theorem Raises.gets (f : σ → α) : Raises Q (gets f : Prog ε σ α) := fun _ _ _ h =>
  nomatch (Prod.mk.inj h).1

theorem raises_modify (f : σ → σ) : Raises Q (modify f : Prog ε σ Unit) := fun _ _ _ h =>
  nomatch (Prod.mk.inj h).1

theorem raises_update (f : σ → α × σ) : Raises Q (update f : Prog ε σ α) := fun _ _ _ h =>
  nomatch (Prod.mk.inj h).1

theorem raises_throw {e : ε} (h : Q e) : Raises Q (throw e : Prog ε σ α) := by
  intro s e' s' hr
  cases (Prod.mk.inj hr).1
  exact h

theorem raises_ofExcept {r : Except ε α} (h : ∀ e, r = .error e → Q e) :
    Raises Q (ofExcept r : Prog ε σ α) := by
  intro s e s' hr
  rw [ofExcept_run] at hr
  exact h e (Prod.mk.inj hr).1

theorem Raises.bind {x : Prog ε σ α} {f : α → Prog ε σ β} (hx : Raises Q x)
    (hf : ∀ a, Raises Q (f a)) : Raises Q (x >>= f) := by
  intro s e s' hr
  rcases h : x s with ⟨e' | a, t⟩
  · rw [bind_run_error h] at hr
    rw [← Except.error.inj (Prod.mk.inj hr).1]
    exact hx s e' t h
  · rw [bind_run_ok h] at hr
    exact hf a t e s' hr

theorem Raises.modify {g : σ → σ} {f : Unit → Prog ε σ β} (hf : ∀ a, Raises Q (f a)) :
    Raises Q (Prog.modify g >>= f) := .bind (raises_modify g) hf

theorem raises_forEach {l : List α} {f : α → Prog ε σ Unit} (h : ∀ a ∈ l, Raises Q (f a)) :
    Raises Q (forEach l f) := by
  induction l with
  | nil => exact Raises.pure ()
  | cons a as ih =>
    refine .bind (h a (.head _)) fun _ => ?_
    exact ih fun b hb => h b (.tail _ hb)

end raises

/-! ## Triples -/

/-- From a state with `P`, the program returns a value and a state with `Q`, or stops in a state
with `E`. -/
def Triple (P : σ → Prop) (x : Prog ε σ α) (Q : α → σ → Prop) (E : σ → Prop) : Prop :=
  ∀ s, P s → (∀ a t, x s = (.ok a, t) → Q a t) ∧ ∀ e t, x s = (.error e, t) → E t

/-- The program keeps `P`, however it ends. -/
abbrev Maintains (P : σ → Prop) (x : Prog ε σ α) : Prop := Triple P x (fun _ => P) P

section triples

variable {P P' E : σ → Prop} {Q : α → σ → Prop} {x : Prog ε σ α}

theorem triple_of_run (h : ∀ s, P s → (∀ a, (x s).1 = .ok a → Q a (x s).2) ∧
    ∀ e, (x s).1 = .error e → E (x s).2) : Triple P x Q E := fun s hs => by
  refine ⟨fun a t hr => ?_, fun e t hr => ?_⟩
  · have hQ := (h s hs).1 a (by rw [hr])
    rw [hr] at hQ
    exact hQ
  · have hE := (h s hs).2 e (by rw [hr])
    rw [hr] at hE
    exact hE

theorem maintains_of_run (h : ∀ s, P s → P (x s).2) : Maintains P x :=
  triple_of_run fun s hs => ⟨fun _ _ => h s hs, fun _ _ => h s hs⟩

theorem maintains_of_within {R : σ → σ → Prop} (hx : Within R x) (h : ∀ s t, P s → R s t → P t) :
    Maintains P x := maintains_of_run fun s hs => h s _ hs (hx s)

theorem Maintains.run (h : Maintains P x) {s : σ} (hs : P s) : P (x s).2 := by
  obtain ⟨hok, herr⟩ := h s hs
  rcases hr : x s with ⟨e | a, t⟩
  · exact herr e t hr
  · exact hok a t hr

theorem Triple.weaken (h : Triple P x Q E) (hP : ∀ s, P' s → P s) : Triple P' x Q E :=
  fun s hs => h s (hP s hs)

theorem Triple.relax {Q' : α → σ → Prop} {E' : σ → Prop} (h : Triple P x Q E)
    (hQ : ∀ a s, Q a s → Q' a s) (hE : ∀ s, E s → E' s) : Triple P x Q' E' := fun s hs =>
  ⟨fun a t hr => hQ a t ((h s hs).1 a t hr), fun e t hr => hE t ((h s hs).2 e t hr)⟩

variable {f : α → Prog ε σ β} {Q' : β → σ → Prop}

theorem Triple.bind (hx : Triple P x Q E)
    (hf : ∀ a, Triple (Q a) (f a) Q' E) : Triple P (x >>= f) Q' E := by
  intro s hs
  obtain ⟨hok, herr⟩ := hx s hs
  rcases hr : x s with ⟨e | a, t⟩
  · rw [bind_run_error hr]
    refine ⟨fun _ _ h => (nomatch (Prod.mk.inj h).1), fun _ _ h => ?_⟩
    rw [← (Prod.mk.inj h).2]
    exact herr e t hr
  · rw [bind_run_ok hr]
    exact hf a t (hok a t hr)

theorem triple_of_fact {φ : Prop} (h : φ → Triple P x Q E) : Triple (fun s => P s ∧ φ) x Q E :=
  fun s hs => h hs.2 s hs.1

theorem triple_gets_bind {g : σ → α}
    (h : ∀ s, P s → Triple (fun t => s = t) (f (g s)) Q' E) : Triple P (gets g >>= f) Q' E :=
  fun s hs => h s hs s rfl

theorem triple_gets_keep {g : σ → α} (h : ∀ s, P s → Triple P (f (g s)) Q' E) :
    Triple P (gets g >>= f) Q' E := fun s hs => h s hs s hs

theorem triple_pure {a : α} (h : ∀ s, P s → Q a s) : Triple P (pure a : Prog ε σ α) Q E := by
  refine fun s hs => ⟨fun _ _ hr => ?_, fun _ _ hr => nomatch (Prod.mk.inj hr).1⟩
  obtain ⟨ha, ht⟩ := Prod.mk.inj hr
  cases ha
  exact ht ▸ h s hs

theorem triple_throw {e : ε} (h : ∀ s, P s → E s) : Triple P (throw e : Prog ε σ α) Q E := by
  refine fun s hs => ⟨fun _ _ hr => (nomatch (Prod.mk.inj hr).1), fun _ _ hr => ?_⟩
  exact (Prod.mk.inj hr).2 ▸ h s hs

theorem triple_ofExcept_bind {r : Except ε α}
    (hE : ∀ s, P s → E s) (h : ∀ a, r = .ok a → Triple P (f a) Q' E) :
    Triple P (ofExcept r >>= f) Q' E := by
  cases r with
  | error e => exact triple_throw hE
  | ok a => exact h a rfl

theorem triple_modify {f : σ → σ} {Q : Unit → σ → Prop} (h : ∀ s, P s → Q () (f s)) :
    Triple P (modify f : Prog ε σ Unit) Q E :=
  triple_of_run fun s hs => ⟨fun _ _ => h s hs, nofun⟩

theorem triple_update {f : σ → α × σ} (h : ∀ s, P s → Q (f s).1 (f s).2) :
    Triple P (update f : Prog ε σ α) Q E :=
  triple_of_run fun s hs => ⟨fun _ hr => Except.ok.inj hr ▸ h s hs, nofun⟩

/-- An attempt does not stop, and hands over what the program ended with. -/
theorem triple_attempt (h : Triple P x Q E) :
    Triple P (attempt x) (fun o s => (∀ a, o = .ok a → Q a s) ∧ ∀ e, o = .error e → E s)
      fun _ => False := by
  refine triple_of_run fun s hs => ⟨fun o ho => ?_, nofun⟩
  cases ho
  obtain ⟨hok, herr⟩ := h s hs
  exact ⟨fun a ha => hok a _ (Prod.ext ha rfl), fun e he => herr e _ (Prod.ext he rfl)⟩

theorem triple_forEach {l : List α} {f : α → Prog ε σ Unit}
    (h : ∀ a ∈ l, Triple P (f a) (fun _ => P) E) : Triple P (forEach l f) (fun _ => P) E := by
  induction l with
  | nil => exact triple_pure fun _ hs => hs
  | cons a as ih =>
    exact .bind (h a (.head _)) fun _ => ih fun b hb => h b (.tail _ hb)

end triples

end Prog
