import Mathlib.Algebra.Group.Defs
import Mathlib.Data.Fin.Tuple.Basic
import Mathlib.Data.List.Forall2
import Mathlib.Tactic.Common

/-! Circuits as a program builds them: it makes variables, each with a value at hand, and constrains expressions of
them to be zero. A prover may give the variables any values that meet the constraints. -/

/-- A circuit over `F` with a result. -/
inductive Circuit (F α : Type) : Type
  | done (result : α)
  | bless (value : F) (rest : F → Circuit F α)
  | zero (expr : F) (rest : Circuit F α)

namespace Circuit
variable {F α β γ : Type}

def bind : Circuit F α → (α → Circuit F β) → Circuit F β
  | done a, f => f a
  | bless v rest, f => bless v fun x => (rest x).bind f
  | zero e rest, f => zero e (rest.bind f)

instance : Monad (Circuit F) where
  pure := done
  bind := bind

/-- A new variable. -/
def var (value : F) : Circuit F F := bless value done

def constrainZero (expr : F) : Circuit F Unit := zero expr (done ())

/-- A circuit for each number below a bound. -/
def forFin : (n : ℕ) → (Fin n → Circuit F β) → Circuit F (Fin n → β)
  | 0, _ => done Fin.elim0
  | n+1, f => do
    let first ← f 0
    let rest ← forFin n fun i => f i.succ
    return Fin.cons first rest

section Semantics
variable [Zero F]

/-- Some values of the variables meet the constraints and give a result. -/
def Allows : Circuit F α → α → Prop
  | done a, b => b = a
  | bless _ rest, b => ∃ x, (rest x).Allows b
  | zero e rest, b => e = 0 ∧ rest.Allows b

end Semantics

section Monad
variable {c : Circuit F α} {f : α → Circuit F β}

lemma bind_done (c : Circuit F α) : c.bind done = c := by
  induction c with
  | done a => rfl
  | bless v rest ih => exact congrArg (bless v) (funext ih)
  | zero e rest ih => exact congrArg (zero e) ih

lemma bind_bind (c : Circuit F α) (f : α → Circuit F β) (g : β → Circuit F γ) :
    (c.bind f).bind g = c.bind fun a => (f a).bind g := by
  induction c with
  | done a => rfl
  | bless v rest ih => exact congrArg (bless v) (funext ih)
  | zero e rest ih => exact congrArg (zero e) ih

instance : LawfulMonad (Circuit F) := LawfulMonad.mk' (Circuit F) bind_done (fun _ _ => rfl) bind_bind

end Monad

section Constraints
variable [Zero F] {c : Circuit F α} {f : α → Circuit F β} {a a' : α} {b : β} {e : F}

@[simp] lemma allows_pure : (pure a : Circuit F α).Allows a' ↔ a' = a := Iff.rfl

@[simp] lemma allows_var {v x : F} : (var v).Allows x := ⟨x, rfl⟩

@[simp] lemma allows_constrainZero {u : Unit} : (constrainZero e).Allows u ↔ e = 0 := and_iff_left rfl

@[simp] lemma allows_bind : (c >>= f).Allows b ↔ ∃ a, c.Allows a ∧ (f a).Allows b := by
  change (c.bind f).Allows b ↔ _
  induction c with
  | done a =>
    constructor
    · exact fun hb => ⟨a, rfl, hb⟩
    · rintro ⟨_, rfl, hb⟩
      exact hb
  | bless v rest ih =>
    refine (exists_congr fun x => ih x).trans ⟨?_, ?_⟩
    · rintro ⟨x, a, ha, hb⟩
      exact ⟨a, ⟨x, ha⟩, hb⟩
    · rintro ⟨a, ⟨x, ha⟩, hb⟩
      exact ⟨x, a, ha, hb⟩
  | zero e rest ih =>
    refine (and_congr_right fun _ => ih).trans ⟨?_, ?_⟩
    · rintro ⟨he, a, ha, hb⟩
      exact ⟨a, ⟨he, ha⟩, hb⟩
    · rintro ⟨a, ⟨he, ha⟩, hb⟩
      exact ⟨he, a, ha, hb⟩

lemma exists_unit {P : Unit → Prop} : (∃ u, P u) ↔ P () := by
  constructor
  · rintro ⟨⟨⟩, h⟩
    exact h
  · exact fun h => ⟨(), h⟩

/-- Steps that leave no choice leave none together. -/
lemma allows_foldlM {step : β → α → Circuit F β} {next : β → α → β} (h : ∀ s x b, (step s x).Allows b ↔ b = next s x)
    {l : List α} {s b : β} : (l.foldlM step s).Allows b ↔ b = l.foldl next s := by
  induction l generalizing s with
  | nil => exact allows_pure
  | cons x l ih => simp only [List.foldlM_cons, allows_bind, h, exists_eq_left, ih, List.foldl_cons]

end Constraints

section Loops
variable [Zero F] {f : α → Circuit F β} {g : α → Circuit F Unit} {h : α → β} {c : Circuit F α} {l : List α}
  {ys : List β} {b : β}

@[simp] lemma allows_map : (h <$> c).Allows b ↔ ∃ a, c.Allows a ∧ b = h a := by
  simp only [map_eq_pure_bind, allows_bind, allows_pure]

lemma allows_mapM : (l.mapM f).Allows ys ↔ List.Forall₂ (fun x y => (f x).Allows y) l ys := by
  induction l generalizing ys with
  | nil => simp [List.mapM_nil]
  | cons x l ih =>
    rw [List.mapM_cons, allows_bind, List.forall₂_cons_left_iff]
    refine exists_congr fun y => ?_
    simp only [allows_bind, allows_pure, ih]
    constructor
    · rintro ⟨hy, ys', hys, rfl⟩
      exact ⟨ys', hy, hys, rfl⟩
    · rintro ⟨ys', hy, hys, rfl⟩
      exact ⟨hy, ys', hys, rfl⟩

@[simp] lemma allows_forM {u : Unit} : (forM l g).Allows u ↔ ∀ x ∈ l, (g x).Allows () := by
  induction l with
  | nil =>
    rw [List.forM_nil, allows_pure]
    exact iff_of_true rfl fun x hx => absurd hx List.not_mem_nil
  | cons x l ih =>
    rw [List.forM_cons, allows_bind, List.forall_mem_cons, ← ih]
    constructor
    · rintro ⟨⟨⟩, hx⟩
      exact hx
    · exact fun hx => ⟨(), hx⟩

@[simp] lemma allows_optionForM {o : Option α} {u : Unit} : (o.forM g).Allows u ↔ ∀ x ∈ o, (g x).Allows () := by
  cases o with
  | none => exact iff_of_true rfl fun x hx => by cases hx
  | some x => exact ⟨fun hx y hy => Option.mem_some_iff.1 hy ▸ hx, fun hx => hx x rfl⟩

/-- Each of the circuits gives its own result. -/
lemma allows_forFin {n : ℕ} {f : Fin n → Circuit F β} {y : Fin n → β} :
    (forFin n f).Allows y ↔ ∀ i, (f i).Allows (y i) := by
  induction n with
  | zero => exact iff_of_true (funext fun i => i.elim0) fun i => i.elim0
  | succ n ih =>
    simp only [forFin, allows_bind, allows_pure, ih, Fin.forall_fin_succ]
    constructor
    · rintro ⟨first, hfirst, rest, hrest, rfl⟩
      exact ⟨hfirst, hrest⟩
    · rintro ⟨hfirst, hrest⟩
      exact ⟨y 0, hfirst, Fin.tail y, hrest, (Fin.cons_self_tail y).symm⟩

end Loops

end Circuit
