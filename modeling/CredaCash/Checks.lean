import Mathlib.Logic.Basic
import Mathlib.Tactic.SplitIfs

/-! Sequences of checks, which stop with a result at the first check that fails. -/

namespace Checks

variable {ε α β : Type}

/-- Stops with a result under a condition. -/
def reject (c : Prop) [Decidable c] (result : ε) : Except ε Unit := if c then .error result else .ok ()

theorem ok_bind {a : α} {f : α → Except ε β} : (Except.ok a >>= f) = f a := rfl

theorem bind_eq_ok {x : Except ε α} {f : α → Except ε β} {b : β} :
    (x >>= f) = .ok b ↔ ∃ a, x = .ok a ∧ f a = .ok b := by
  cases x with
  | error e => exact ⟨fun h => (by cases h), fun ⟨_, h, _⟩ => (by cases h)⟩
  | ok a => exact ⟨fun h => ⟨a, rfl, h⟩, fun ⟨_, h, h'⟩ => (by cases h; exact h')⟩

theorem bind_eq_error {x : Except ε α} {f : α → Except ε β} {e : ε} :
    (x >>= f) = .error e ↔ x = .error e ∨ ∃ a, x = .ok a ∧ f a = .error e := by
  cases x with
  | error e' =>
    constructor
    · intro h
      cases h
      exact .inl rfl
    · rintro (h | ⟨_, h, _⟩)
      · cases h
        rfl
      · cases h
  | ok a =>
    constructor
    · exact fun h => .inr ⟨a, rfl, h⟩
    · rintro (h | ⟨_, h, h'⟩)
      · cases h
      · cases h
        exact h'

@[simp] theorem reject_eq_ok {c : Prop} [Decidable c] {e : ε} {u : Unit} : reject c e = .ok u ↔ ¬ c := by
  unfold reject
  split_ifs with h
  · exact ⟨fun h => (by cases h), fun h' => absurd h h'⟩
  · exact ⟨fun _ => h, fun _ => rfl⟩

theorem reject_bind_eq_ok {c : Prop} [Decidable c] {e : ε} {f : Unit → Except ε β} {b : β} :
    (reject c e >>= f) = .ok b ↔ ¬ c ∧ f () = .ok b := by
  rw [bind_eq_ok]
  exact ⟨fun ⟨_, hc, h⟩ => ⟨reject_eq_ok.1 hc, h⟩, fun ⟨hc, h⟩ => ⟨(), reject_eq_ok.2 hc, h⟩⟩

theorem forM_eq_ok {xs : List α} {f : α → Except ε Unit} : xs.forM f = .ok () ↔ ∀ x ∈ xs, f x = .ok () := by
  induction xs with
  | nil => exact ⟨fun _ _ h => (by cases h), fun _ => rfl⟩
  | cons x xs ih =>
    rw [show (x :: xs).forM f = f x >>= fun _ => xs.forM f from rfl, bind_eq_ok, List.forall_mem_cons, ← ih]
    exact ⟨fun ⟨_, h⟩ => h, fun h => ⟨(), h⟩⟩

/-- What every turn of a loop keeps holds at its end. -/
theorem foldlM_ok {σ : Type} {P : σ → Prop} {f : σ → α → Except ε σ} (hf : ∀ s a s', P s → f s a = .ok s' → P s')
    {xs : List α} {s s' : σ} (hs : P s) (h : xs.foldlM f s = .ok s') : P s' := by
  induction xs generalizing s with
  | nil =>
    cases h
    exact hs
  | cons x xs ih =>
    rw [List.foldlM_cons] at h
    obtain ⟨s₁, h₁, h⟩ := bind_eq_ok.1 h
    exact ih (hf s x s₁ hs h₁) h

theorem isOk_eq_true {x : Except ε α} : x.isOk = true ↔ ∃ a, x = .ok a := by
  cases x with
  | error e => exact ⟨fun h => (by cases h), fun ⟨_, h⟩ => (by cases h)⟩
  | ok a => exact ⟨fun _ => ⟨a, rfl⟩, fun _ => rfl⟩

theorem ok_of_toOption {x : Except ε α} {a : α} (h : x.toOption = some a) : x = .ok a := by
  cases x with
  | error e => cases h
  | ok b => exact congrArg Except.ok (Option.some.inj h)

/-- How a computation ends: an error satisfies `E`, a result satisfies `P`. -/
def Ends (E : ε → Prop) (P : α → Prop) (x : Except ε α) : Prop := (∀ e, x = .error e → E e) ∧ ∀ a, x = .ok a → P a

namespace Ends
variable {E : ε → Prop} {P : α → Prop} {Q : β → Prop} {x : Except ε α} {a : α} {e : ε}

theorem ok (h : P a) : Ends E P (.ok a) := ⟨fun _ he => (by cases he), fun _ ha => Except.ok.inj ha ▸ h⟩

theorem error (h : E e) : Ends E P (.error e) := ⟨fun _ he => Except.error.inj he ▸ h, fun _ ha => (by cases ha)⟩

theorem bind {f : α → Except ε β} (hx : Ends E P x) (hf : ∀ a, P a → Ends E Q (f a)) : Ends E Q (x >>= f) := by
  cases x with
  | error e => exact error (hx.1 e rfl)
  | ok a => exact hf a (hx.2 a rfl)

theorem map {f : α → β} (hx : Ends E P x) (hf : ∀ a, P a → Q (f a)) : Ends E Q (x.map f) := by
  cases x with
  | error e => exact error (hx.1 e rfl)
  | ok a => exact ok (hf a (hx.2 a rfl))

theorem mono {P' : α → Prop} (hx : Ends E P x) (h : ∀ a, P a → P' a) : Ends E P' x :=
  ⟨hx.1, fun a ha => h a (hx.2 a ha)⟩

theorem mapError {E' : ε → Prop} (hx : Ends E P x) (h : ∀ e, E e → E' e) : Ends E' P x :=
  ⟨fun e he => h e (hx.1 e he), hx.2⟩

/-- A loop ends as its turns do. -/
theorem foldlM {f : α → β → Except ε α} {bs : List β} (hf : ∀ b ∈ bs, ∀ a, P a → Ends E P (f a b)) (ha : P a) :
    Ends E P (bs.foldlM f a) := by
  induction bs generalizing a with
  | nil => exact ok ha
  | cons b bs ih =>
    exact (hf b (List.mem_cons_self ..) a ha).bind fun a ha => ih (fun b hb => hf b (List.mem_cons_of_mem _ hb)) ha

end Ends

end Checks
