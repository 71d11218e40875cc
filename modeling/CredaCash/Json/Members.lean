import CredaCash.Checks
import CredaCash.Json.ParseInt

/-! The members of a JSON object, which are removed as they are read. -/

namespace CredaCash.Json

/-- A value: a text, a number or a truth value is given by what `asString` makes of it. -/
inductive Value
  | null
  | scalar (text : List UInt8)
  | array (values : List Value)
  | object (members : List (String × Value))

/-- An object with its members. -/
abbrev Root := List (String × Value)

/-- Reading from an object: an error, or a result and the members that are left. -/
abbrev Reading := StateT Root (Except String)

def errorMissingKey (key : String) : String := "error: missing required value \"" ++ key ++ "\""
def errorUnexpectedKey (key : String) : String := "error: unexpected value \"" ++ key ++ "\""
def errorNotArray (key : String) : String := "error: the \"" ++ key ++ "\" element must contain an array of values"

def errorTooManyObjs (key : String) (limit : ℕ) : String :=
  "error: the \"" ++ key ++ "\" element is limited to " ++ toString limit ++ " objects"

/-- `asString`, which throws for arrays and objects. -/
def Value.asString : Value → Except String (List UInt8)
  | null => .ok []
  | scalar text => .ok text
  | array _ | object _ => .error "Value is not convertible to string."

/-- The number in a value. -/
def Value.asInt (key : String) (nbits maxval : ℕ) (value : Value) : Except String ℕ := do
  parseIntValue key (← value.asString) nbits maxval

lemma asInt_scalar (key : String) (nbits maxval : ℕ) (text : List UInt8) :
    (Value.scalar text).asInt key nbits maxval = parseIntValue key text nbits maxval := rfl

def removeMember (key : String) : Reading (Option Value) := fun root =>
  .ok (root.lookup key, root.filter fun member => member.1 ≠ key)

/-- A number, if the member is there. -/
def intMember (key : String) (nbits maxval : ℕ) : Reading (Option ℕ) := do
  match ← removeMember key with
  | none => return none
  | some value => return some (← value.asInt key nbits maxval)

/-- A number that has to be there. -/
def requiredMember (key : String) (nbits : ℕ) : Reading ℕ := do
  match ← removeMember key with
  | none => throw (errorMissingKey key)
  | some value => value.asInt key nbits 0

/-- An entry of a list of numbers, which can be left out with a null. -/
def Value.asEntry (key : String) (nbits : ℕ) : Value → Except String (Option ℕ)
  | null => .ok none
  | value => some <$> value.asInt key nbits 0

/-- Numbers, if the member is there. -/
def arrayMember (key : String) (limit nbits : ℕ) : Reading (Option (List (Option ℕ))) := do
  match ← removeMember key with
  | none => return none
  | some (.array values) =>
    if values.length > limit then throw (errorTooManyObjs key limit)
    else return some (← (values.mapM (Value.asEntry key nbits) : Except String _))
  | some _ => throw (errorNotArray key)

/-- The error for members that are left names the first of them. -/
def checkEmpty : Reading Unit := fun root =>
  match root with
  | [] => .ok ((), [])
  | (key, _) :: _ => .error (errorUnexpectedKey key)

section
variable {α β : Type} {x : Reading α} {f : α → Reading β} {g : α → Except String β} {a : α} {b : β} {root r : Root}
  {key k : String}

lemma bind_eq_ok : (x >>= f) root = .ok (b, r) ↔ ∃ a r', x root = .ok (a, r') ∧ f a r' = .ok (b, r) := by
  refine Checks.bind_eq_ok.trans ⟨?_, ?_⟩
  · rintro ⟨⟨a, r'⟩, hx, hf⟩
    exact ⟨a, r', hx, hf⟩
  · rintro ⟨a, r', hx, hf⟩
    exact ⟨(a, r'), hx, hf⟩

lemma pure_eq_ok {a' : α} : (pure a : Reading α) root = .ok (a', r) ↔ a = a' ∧ root = r := by
  rw [show (pure a : Reading α) root = .ok (a, root) from rfl, Except.ok.injEq, Prod.mk.injEq]

lemma lift_eq_ok {y : Except String α} : (liftM y : Reading α) root = .ok (a, r) ↔ y = .ok a ∧ root = r := by
  refine Checks.bind_eq_ok.trans ⟨?_, ?_⟩
  · rintro ⟨b, hy, hb⟩
    obtain ⟨rfl, rfl⟩ := pure_eq_ok.1 hb
    exact ⟨hy, rfl⟩
  · rintro ⟨hy, rfl⟩
    exact ⟨a, hy, rfl⟩

lemma throw_ne_ok {e : String} : (throw e : Reading α) root ≠ .ok (a, r) := by
  rintro ⟨⟩

lemma lookup_filter {keep : String → Prop} [DecidablePred keep] (root : Root) (h : keep key) :
    (root.filter fun member => keep member.1).lookup key = root.lookup key := by
  induction root with
  | nil => rfl
  | cons member root ih =>
    obtain ⟨name, value⟩ := member
    by_cases hname : keep name
    · rw [List.filter_cons_of_pos (by simpa using hname), List.lookup_cons, List.lookup_cons, ih]
    · have hne : key ≠ name := fun heq => hname (heq ▸ h)
      rw [List.filter_cons_of_neg (by simpa using hname), ih, List.lookup_cons, beq_false_of_ne hne]

lemma lookup_filter_ne (root : Root) (h : key ≠ k) :
    (root.filter fun member => member.1 ≠ k).lookup key = root.lookup key :=
  @lookup_filter key (· ≠ k) _ root h

lemma removeMember_singleton (key : String) (value : Value) : removeMember key [(key, value)] = .ok (some value, []) := by
  rw [removeMember, List.lookup_cons_self, List.filter_cons_of_neg (by simp), List.filter_nil]

/-- The only member is read, and none is left. -/
lemma requiredMember_singleton {value : Value} {nbits n : ℕ} (h : value.asInt key nbits 0 = .ok n) :
    requiredMember key nbits [(key, value)] = .ok (n, []) :=
  bind_eq_ok.2 ⟨_, _, removeMember_singleton key value, lift_eq_ok.2 ⟨h, rfl⟩⟩

lemma run'_eq_ok : x.run' root = .ok a ↔ ∃ r, x root = .ok (a, r) := by
  change (x root).map Prod.fst = .ok a ↔ _
  cases x root with
  | error e => simp [Except.map]
  | ok ar => simp [Except.map, Prod.ext_iff]

/-- A member that a reading does not touch. -/
def Keeps (key : String) (x : Reading α) : Prop := ∀ root a r, x root = .ok (a, r) → r.lookup key = root.lookup key

/-- What holds of everything that a reading can give. -/
def Gives (P : α → Prop) (x : Reading α) : Prop := ∀ root a r, x root = .ok (a, r) → P a

lemma keeps_pure (key : String) (a : α) : Keeps key (pure a : Reading α) := by
  intro root b r h
  obtain ⟨-, rfl⟩ := pure_eq_ok.1 h
  rfl

lemma keeps_throw (key e : String) : Keeps key (throw e : Reading α) := fun _ _ _ h => absurd h throw_ne_ok

lemma keeps_lift (key : String) (y : Except String α) : Keeps key (liftM y : Reading α) := by
  intro root b r h
  obtain ⟨-, rfl⟩ := lift_eq_ok.1 h
  rfl

lemma Keeps.bind (hx : Keeps key x) (hf : ∀ a, Keeps key (f a)) : Keeps key (x >>= f) := by
  intro root b r h
  obtain ⟨a, r', hxa, hfb⟩ := bind_eq_ok.1 h
  rw [hf a r' b r hfb, hx root a r' hxa]

lemma keeps_removeMember (h : key ≠ k) : Keeps key (removeMember k) := by
  intro root value r hr
  obtain ⟨-, rfl⟩ := Prod.mk.injEq .. ▸ Except.ok.inj hr
  exact lookup_filter_ne root h

lemma keeps_intMember (h : key ≠ k) (nbits maxval : ℕ) : Keeps key (intMember k nbits maxval) := by
  refine (keeps_removeMember h).bind fun value => ?_
  cases value with
  | none => exact keeps_pure key _
  | some value => exact (keeps_lift key _).bind fun _ => keeps_pure key _

lemma keeps_arrayMember (h : key ≠ k) (limit nbits : ℕ) : Keeps key (arrayMember k limit nbits) := by
  refine (keeps_removeMember h).bind fun value => ?_
  cases value with
  | none => exact keeps_pure key _
  | some value =>
    cases value with
    | array values =>
      dsimp only
      split_ifs
      · exact keeps_throw key _
      · exact (keeps_lift key _).bind fun _ => keeps_pure key _
    | null | scalar | object => exact keeps_throw key _

lemma gives_pure {P : α → Prop} (h : P a) : Gives P (pure a : Reading α) := by
  intro root b r hb
  obtain ⟨rfl, -⟩ := pure_eq_ok.1 hb
  exact h

lemma gives_throw (P : α → Prop) (e : String) : Gives P (throw e : Reading α) := fun _ _ _ h => absurd h throw_ne_ok

lemma gives_bind {P : β → Prop} (hf : ∀ a, Gives P (f a)) : Gives P (x >>= f) := by
  intro root b r h
  obtain ⟨a, r', -, hfb⟩ := bind_eq_ok.1 h
  exact hf a r' b r hfb

/-- Reading one member, which is removed. -/
def ReadsMember (key : String) (x : Reading α) : Prop :=
  ∃ f : Option Value → Except String α,
    ∀ root, x root = (f (root.lookup key)).map fun a => (a, root.filter fun member => member.1 ≠ key)

lemma readsMember_removeMember (key : String) : ReadsMember key (removeMember key) := ⟨.ok, fun _ => rfl⟩

lemma ReadsMember.bind (hx : ReadsMember key x) (hf : ∀ a root, f a root = (g a).map fun b => (b, root)) :
    ReadsMember key (x >>= f) := by
  obtain ⟨read, hread⟩ := hx
  refine ⟨fun value => read value >>= g, fun root => ?_⟩
  change (x root >>= fun ar => f ar.1 ar.2) = (read (root.lookup key) >>= g).map _
  rw [hread]
  cases read (root.lookup key) with
  | error e => rfl
  | ok a => exact hf a _

/-- What is read is the same where the member is, and the other members are left. -/
lemma ReadsMember.congr (hx : ReadsMember key x) (h : x root = .ok (a, r)) {root' : Root}
    (hsame : root'.lookup key = root.lookup key) :
    r = root.filter (fun member => member.1 ≠ key) ∧
      x root' = .ok (a, root'.filter fun member => member.1 ≠ key) := by
  obtain ⟨read, hread⟩ := hx
  rw [hread] at h
  rw [hread, hsame]
  cases hvalue : read (root.lookup key) with
  | error e =>
    rw [hvalue] at h
    cases h
  | ok b =>
    rw [hvalue] at h
    cases h
    exact ⟨rfl, rfl⟩

lemma readsMember_intMember (key : String) (nbits maxval : ℕ) : ReadsMember key (intMember key nbits maxval) := by
  refine ReadsMember.bind
    (g := fun value => value.elim (.ok none) fun value => some <$> value.asInt key nbits maxval)
    (readsMember_removeMember key) fun value root => ?_
  cases value with
  | none => rfl
  | some value =>
    change ((liftM (value.asInt key nbits maxval) : Reading ℕ) >>= fun n => pure (some n)) root =
      (some <$> value.asInt key nbits maxval).map _
    cases value.asInt key nbits maxval with
    | error e => rfl
    | ok n => rfl

lemma readsMember_requiredMember (key : String) (nbits : ℕ) : ReadsMember key (requiredMember key nbits) := by
  refine ReadsMember.bind
    (g := fun value => value.elim (.error (errorMissingKey key)) fun value => value.asInt key nbits 0)
    (readsMember_removeMember key) fun value root => ?_
  cases value with
  | none => rfl
  | some value =>
    change (liftM (value.asInt key nbits 0) : Reading ℕ) root = (value.asInt key nbits 0).map _
    cases value.asInt key nbits 0 with
    | error e => rfl
    | ok n => rfl

end

end CredaCash.Json
