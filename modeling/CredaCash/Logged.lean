import Mathlib.Logic.Basic
import Mathlib.Data.Nat.Notation
import Mathlib.Tactic.SplitIfs

/-! Computations that may fail and that log what they do, with loops of them: a loop is clean exactly
when every turn that it comes to is. -/

/-- A result together with the log of how it came about. -/
structure Logged (δ ε α : Type) where
  log : List δ
  result : Except ε α

namespace Logged
variable {δ ε α β σ : Type}

protected def pure (a : α) : Logged δ ε α := ⟨[], .ok a⟩

protected def bind (x : Logged δ ε α) (f : α → Logged δ ε β) : Logged δ ε β :=
  match x.result with
  | .ok a => ⟨x.log ++ (f a).log, (f a).result⟩
  | .error e => ⟨x.log, .error e⟩

instance : Monad (Logged δ ε) where
  pure := Logged.pure
  bind := Logged.bind

/-- Writes one entry into the log. -/
def note (d : δ) : Logged δ ε Unit := ⟨[d], .ok ()⟩

/-- A computation that logs nothing. -/
def lift (x : Except ε α) : Logged δ ε α := ⟨[], x⟩

/-- Every entry of the log satisfies `P`, and if the computation fails its error satisfies `E`. -/
def Clean (P : δ → Prop) (E : ε → Prop) (x : Logged δ ε α) : Prop :=
  (∀ d ∈ x.log, P d) ∧ ∀ e, x.result = .error e → E e

section Clean
variable {P : δ → Prop} {E : ε → Prop} {x : Logged δ ε α} {f : α → Logged δ ε β} {a : α} {b : β} {e : ε}

theorem bind_ok (h : x.result = .ok a) : x >>= f = ⟨x.log ++ (f a).log, (f a).result⟩ := by
  change Logged.bind x f = _
  simp only [Logged.bind, h]

theorem bind_error (h : x.result = .error e) : x >>= f = ⟨x.log, .error e⟩ := by
  change Logged.bind x f = _
  simp only [Logged.bind, h]

theorem bind_result_eq_ok : (x >>= f).result = .ok b ↔ ∃ a, x.result = .ok a ∧ (f a).result = .ok b := by
  cases hx : x.result with
  | ok a =>
    rw [bind_ok hx]
    exact ⟨fun h => ⟨a, rfl, h⟩, fun ⟨_, heq, h⟩ => (by cases heq; exact h)⟩
  | error e =>
    rw [bind_error hx]
    exact ⟨fun h => (by cases h), fun ⟨_, heq, _⟩ => (by cases heq)⟩

@[simp] theorem pure_result : (pure a : Logged δ ε α).result = .ok a := rfl

@[simp] theorem note_result (d : δ) : (note d : Logged δ ε Unit).result = .ok () := rfl

@[simp] theorem lift_result (x : Except ε α) : (lift x : Logged δ ε α).result = x := rfl

theorem clean_pure : (pure a : Logged δ ε α).Clean P E :=
  ⟨fun _ h => (by cases h), fun _ h => (by cases h)⟩

@[simp] theorem clean_note (d : δ) : (note d : Logged δ ε Unit).Clean P E ↔ P d :=
  ⟨fun h => h.1 d (List.mem_singleton_self d),
    fun h => ⟨fun _ hd => List.mem_singleton.1 hd ▸ h, fun _ he => (by cases he)⟩⟩

@[simp] theorem clean_lift (x : Except ε α) : (lift x : Logged δ ε α).Clean P E ↔ ∀ e, x = .error e → E e :=
  ⟨fun h => h.2, fun h => ⟨fun _ hd => (by cases hd), h⟩⟩

theorem clean_bind : (x >>= f).Clean P E ↔ x.Clean P E ∧ ∀ a, x.result = .ok a → (f a).Clean P E := by
  cases hx : x.result with
  | ok a =>
    rw [bind_ok hx]
    constructor
    · intro h
      refine ⟨⟨fun d hd => h.1 d (List.mem_append_left _ hd), fun e he => ?_⟩, fun a' ha' => ?_⟩
      · rw [hx] at he
        cases he
      · cases ha'
        exact ⟨fun d hd => h.1 d (List.mem_append_right _ hd), h.2⟩
    · intro h
      obtain ⟨hlog, herr⟩ := h.2 a rfl
      exact ⟨fun d hd => (List.mem_append.1 hd).elim (h.1.1 d) (hlog d), herr⟩
  | error e =>
    rw [bind_error hx]
    constructor
    · intro h
      refine ⟨⟨h.1, fun e' he' => ?_⟩, fun a ha => by cases ha⟩
      rw [hx] at he'
      cases he'
      exact h.2 e rfl
    · rintro ⟨h, -⟩
      refine ⟨h.1, fun e' he' => ?_⟩
      cases he'
      exact h.2 e hx

theorem clean_note_bind {d : δ} {f : Unit → Logged δ ε β} : (note d >>= f).Clean P E ↔ P d ∧ (f ()).Clean P E := by
  rw [clean_bind, clean_note]
  exact and_congr_right fun _ => ⟨fun h => h () rfl, fun h _ _ => h⟩

theorem clean_lift_bind {x : Except ε α} :
    (lift x >>= f).Clean P E ↔ (∀ e, x = .error e → E e) ∧ ∀ a, x = .ok a → (f a).Clean P E := by
  rw [clean_bind, clean_lift]
  exact Iff.rfl

theorem note_bind_result {d : δ} {f : Unit → Logged δ ε β} : (note d >>= f).result = (f ()).result := by
  rw [bind_ok (note_result d)]

theorem lift_bind_result_eq_ok {x : Except ε α} :
    (lift x >>= f).result = .ok b ↔ ∃ a, x = .ok a ∧ (f a).result = .ok b := bind_result_eq_ok

end Clean

section Loop
variable (go : σ → Bool) (body : σ → Logged δ ε σ)

/-- A loop with a bound on its turns; none if the bound is too small. -/
def loop : ℕ → σ → Option (Logged δ ε σ)
  | 0, _ => none
  | n+1, s =>
    if go s = true then
      match (body s).result with
      | .ok s' => (loop n s').map fun x => ⟨(body s).log ++ x.log, x.result⟩
      | .error e => some ⟨(body s).log, .error e⟩
    else some (pure s)

/-- The states that a loop comes to. -/
inductive Reaches : σ → σ → Prop
  | refl (s : σ) : Reaches s s
  | turn {s s' s'' : σ} (hgo : go s = true) (hbody : (body s).result = .ok s') (h : Reaches s' s'') : Reaches s s''

variable {go body} {P : δ → Prop} {E : ε → Prop} {n m : ℕ} {s s' : σ} {x : Logged δ ε σ}

/-- What every turn keeps holds in every state that a loop comes to. -/
theorem Reaches.induct {I : σ → Prop} (hI : ∀ s s', I s → go s = true → (body s).result = .ok s' → I s')
    (h : Reaches go body s s') (hs : I s) : I s' := by
  induction h with
  | refl s => exact hs
  | turn hgo hbody _ ih => exact ih (hI _ _ hs hgo hbody)

/-- A loop whose turns make a measure smaller ends. -/
theorem loop_terminates (μ : σ → ℕ) (hμ : ∀ s s', go s = true → (body s).result = .ok s' → μ s' < μ s)
    (hn : μ s < n) : ∃ x, loop go body n s = some x := by
  induction n generalizing s with
  | zero => exact absurd hn (Nat.not_lt_zero _)
  | succ n ih =>
    rw [loop]
    split_ifs with hgo
    · cases hbody : (body s).result with
      | ok s' =>
        obtain ⟨x, hx⟩ := ih (Nat.lt_of_lt_of_le (hμ s s' hgo hbody) (Nat.lt_succ_iff.1 hn))
        simp only [hx, Option.map_some]
        exact ⟨_, rfl⟩
      | error e => exact ⟨_, rfl⟩
    · exact ⟨_, rfl⟩

/-- More turns than needed change nothing. -/
theorem loop_mono (h : loop go body n s = some x) (hle : n ≤ m) : loop go body m s = some x := by
  induction n generalizing m s x with
  | zero => cases h
  | succ n ih =>
    obtain ⟨m, rfl⟩ : ∃ k, m = k + 1 := ⟨m - 1, by omega⟩
    rw [loop] at h ⊢
    split_ifs at h ⊢ with hgo
    · cases hbody : (body s).result with
      | ok s' =>
        simp only [hbody] at h ⊢
        obtain ⟨y, hy, rfl⟩ := Option.map_eq_some_iff.1 h
        rw [ih hy (Nat.le_of_succ_le_succ hle)]
        rfl
      | error e =>
        simp only [hbody] at h ⊢
        exact h
    · exact h

/-- A loop whose turns make a measure smaller has one outcome, for every bound above the measure. -/
theorem loop_total (μ : σ → ℕ) (hμ : ∀ s s', go s = true → (body s).result = .ok s' → μ s' < μ s) (s : σ) :
    ∃ x, ∀ n, μ s < n → loop go body n s = some x := by
  obtain ⟨x, hx⟩ := loop_terminates μ hμ (Nat.lt_succ_self (μ s))
  exact ⟨x, fun n hn => loop_mono hx hn⟩

/-- A loop is clean exactly when every turn that it comes to is. -/
theorem clean_loop (h : loop go body n s = some x) :
    x.Clean P E ↔ ∀ s', Reaches go body s s' → go s' = true → (body s').Clean P E := by
  induction n generalizing s x with
  | zero => cases h
  | succ n ih =>
    rw [loop] at h
    split_ifs at h with hgo
    · have hreaches : ∀ s'', Reaches go body s s'' ↔
          s'' = s ∨ ∃ s', (body s).result = .ok s' ∧ Reaches go body s' s'' := by
        intro s''
        constructor
        · intro h
          cases h with
          | refl => exact .inl rfl
          | turn _ hbody h => exact .inr ⟨_, hbody, h⟩
        · rintro (rfl | ⟨s', hbody, h⟩)
          · exact .refl _
          · exact .turn hgo hbody h
      cases hbody : (body s).result with
      | ok s' =>
        simp only [hbody] at h
        obtain ⟨y, hy, rfl⟩ := Option.map_eq_some_iff.1 h
        have hclean : (body s >>= fun _ => y).Clean P E ↔ _ := clean_bind
        rw [bind_ok hbody] at hclean
        rw [hclean]
        constructor
        · rintro ⟨hfirst, hrest⟩ s'' h'' hgo''
          rcases (hreaches s'').1 h'' with rfl | ⟨s₁, hbody₁, h₁⟩
          · exact hfirst
          · cases hbody.symm.trans hbody₁
            exact (ih hy).1 (hrest s' hbody) s'' h₁ hgo''
        · intro hall
          exact ⟨hall s (.refl s) hgo, fun _ _ => (ih hy).2 fun s'' h'' => hall s'' (.turn hgo hbody h'')⟩
      | error e =>
        simp only [hbody] at h
        cases h
        have hsame : (⟨(body s).log, .error e⟩ : Logged δ ε σ) = body s := by rw [← hbody]
        rw [hsame]
        constructor
        · intro hfirst s'' h'' _
          rcases (hreaches s'').1 h'' with rfl | ⟨s₁, hbody₁, -⟩
          · exact hfirst
          · cases hbody.symm.trans hbody₁
        · exact fun hall => hall s (.refl s) hgo
    · cases h
      refine ⟨fun _ s' h' hgo' => ?_, fun _ => clean_pure⟩
      cases h' with
      | refl => exact absurd hgo' hgo
      | turn hgo' _ _ => exact absurd hgo' hgo

/-- A loop that succeeds has come to a state where it stops. -/
theorem loop_ok (h : loop go body n s = some x) (hx : x.result = .ok s') :
    Reaches go body s s' ∧ go s' = false := by
  induction n generalizing s x with
  | zero => cases h
  | succ n ih =>
    rw [loop] at h
    split_ifs at h with hgo
    · cases hbody : (body s).result with
      | ok s₁ =>
        simp only [hbody] at h
        obtain ⟨y, hy, rfl⟩ := Option.map_eq_some_iff.1 h
        obtain ⟨hreach, hstop⟩ := ih hy hx
        exact ⟨.turn hgo hbody hreach, hstop⟩
      | error e =>
        simp only [hbody] at h
        cases h
        cases hx
    · cases h
      cases hx
      exact ⟨.refl _, by simpa using hgo⟩

/-- A loop that comes to a state where it stops succeeds there. -/
theorem loop_of_reaches (h : loop go body n s = some x) (hreach : Reaches go body s s') (hstop : go s' = false) :
    x.result = .ok s' := by
  induction hreach generalizing n x with
  | refl s =>
    cases n with
    | zero => cases h
    | succ n =>
      rw [loop, if_neg (by rw [hstop]; exact Bool.false_ne_true)] at h
      cases h
      rfl
  | turn hgo hbody _ ih =>
    cases n with
    | zero => cases h
    | succ n =>
      rw [loop, if_pos hgo] at h
      simp only [hbody] at h
      obtain ⟨y, hy, rfl⟩ := Option.map_eq_some_iff.1 h
      have hresult := ih hy hstop
      exact hresult

/-- Every turn of a loop that succeeds succeeds. -/
theorem loop_turn_ok (h : loop go body n s = some x) (hx : x.result = .ok s') {t : σ} (ht : Reaches go body s t)
    (hgo : go t = true) : ∃ t', (body t).result = .ok t' := by
  have hclean : x.Clean (fun _ => True) (fun _ => False) := by
    refine ⟨fun _ _ => trivial, fun e he => ?_⟩
    rw [hx] at he
    cases he
  cases hbody : (body t).result with
  | ok t' => exact ⟨t', rfl⟩
  | error e => exact (((clean_loop h).1 hclean t ht hgo).2 e hbody).elim

theorem Reaches.trans {s'' : σ} (h : Reaches go body s s') (h' : Reaches go body s' s'') : Reaches go body s s'' := by
  induction h with
  | refl => exact h'
  | turn hgo hbody _ ih => exact .turn hgo hbody (ih h')

end Loop

end Logged
