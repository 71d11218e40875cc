import CredaCash.KeyedTable
import CredaCash.Machine
import CredaCash.Wallet.NoWait

/-! The billets that transaction builds hold: each is allocated in one write transaction of the database, and given back in
another one, in which an early exit rolls everything back. -/

namespace CredaCash.Wallet

inductive BillStatus
  | error
  | abandoned
  | pending
  | preallocated
  | sent
  | cleared
  | allocated
  | spent
  deriving DecidableEq

/-- The columns that billets are looked up by. -/
structure Billet where
  id : ℕ
  status : BillStatus
  blockchain : ℕ
  asset : ℕ
  amount : ℕ
  delaytime : ℕ
  deriving DecidableEq

abbrev Billets : Type := KeyedTable Billet.id

/-- The calls of a database connection, the ones in a loop with their turn. -/
inductive DbCall
  | beginWrite
  | selectAmount
  | selectAmountMax
  | selectId (i : ℕ)
  | insert (i : ℕ)
  | commit
  deriving DecidableEq

/-- `BilletInsert` of a billet that has been read, with another status. -/
def setStatus (t : Billets) (id : ℕ) (status : BillStatus) : Billets :=
  t.update id (fun bill => { bill with status }) fun _ => rfl

/-- What can be spent on a chain. -/
def Available (blockchain asset delaytime : ℕ) (bill : Billet) : Prop :=
  bill.status = .cleared ∧ bill.asset = asset ∧ bill.blockchain = blockchain ∧ bill.delaytime ≤ delaytime

instance (blockchain asset delaytime : ℕ) (bill : Billet) : Decidable (Available blockchain asset delaytime bill) :=
  inferInstanceAs (Decidable (_ ∧ _))

def billetSelectAmount (t : Billets) (blockchain asset amount delaytime : ℕ) : Option Billet :=
  t.first (fun bill => Available blockchain asset delaytime bill ∧ amount ≤ bill.amount) (·.amount)

def billetSelectAmountMax (t : Billets) (blockchain asset delaytime : ℕ) : Option Billet :=
  t.first (fun bill => Available blockchain asset delaytime bill) fun bill => OrderDual.toDual bill.amount

/-- How `LocateBillet` ends. -/
inductive Located
  | throws
  | found (id : ℕ)
  | wait
  | insufficient
  deriving DecidableEq

/-- How `ReleaseBillets` ends. -/
inductive Exit
  | throws
  | returns
  deriving DecidableEq

/-- The builds of the wallet. `held` has the billets of `input_bills` that a build has located and not released. -/
structure Builds where
  billets : Billets
  noWait : NoWait
  held : ℕ → List ℕ

/-- No build holds anything. -/
def Builds.start (billets : Billets) (noWait : NoWait) : Builds := ⟨billets, noWait, fun _ => []⟩

section
variable (ok : DbCall → Bool)

/-- The billet that `LocateBillet` chooses: one that is large enough, or else the largest; none when a call fails. -/
def chooseBillet (t : Billets) (blockchain amount minAmount : ℕ) : Option (Option Billet) :=
  if ¬ok .beginWrite ∨ ¬ok .selectAmount then none
  else match billetSelectAmount t blockchain 0 amount 0 with
  | some bill => some (some bill)
  | none =>
    if ¬ok .selectAmountMax then none
    else some ((billetSelectAmountMax t blockchain 0 0).filter fun bill => minAmount ≤ bill.amount)

/-- `LocateBillet`, in which the database calls that are not `ok` fail. -/
def locateBillet (t : Billets) (noWait : NoWait) (blockchain amount minAmount totalRequired : ℕ) :
    Located × Billets × NoWait :=
  match chooseBillet ok t blockchain amount minAmount with
  | none => (.throws, t, noWait)
  | some none =>
    let (noWait, refused) := NoWait.addNoWaitAmounts noWait ⟨0, true, totalRequired, true⟩
    (if refused then .insufficient else .wait, t, noWait)
  | some (some bill) =>
    if ok (.insert 0) ∧ ok .commit then (.found bill.id, setStatus t bill.id .allocated, noWait)
    else (.throws, t, noWait)

/-- The loop of `ReleaseBillets` within its transaction: the table at the end, or how the call is left before it. -/
def releaseLoop : ℕ → List ℕ → Billets → Except Exit Billets
  | _, [], t => .ok t
  | i, id :: ids, t =>
    if ¬ok (.selectId i) then .error .throws
    else match t.select id with
    | none => .error .throws
    | some bill =>
      -- this leaves the billets that come after it, and those before it when the transaction is rolled back
      if bill.status ≠ .allocated then .error .returns
      else if ¬ok (.insert i) then .error .throws
      else releaseLoop (i + 1) ids (setStatus t id .cleared)

/-- `ReleaseBillets` of a range with these billets. -/
def releaseBillets (ids : List ℕ) (t : Billets) : Exit × Billets :=
  if ids.length < 1 then (.returns, t)
  else if ¬ok .beginWrite then (.throws, t)
  else match releaseLoop ok 0 ids t with
  | .error exit => (exit, t)
  | .ok t' => if ok .commit then (.returns, t') else (.throws, t)

end

/-- A range of the billets that a build holds. -/
def Builds.range (s : Builds) (build start count : ℕ) : List ℕ := ((s.held build).drop start).take count

/-- Calls of the builds, with the database calls in them that do not fail, and a spend by another thread. -/
inductive BuildEvent
  | locateBillet (build blockchain amount minAmount totalRequired : ℕ) (ok : DbCall → Bool)
  | releaseBillets (build start count : ℕ) (ok : DbCall → Bool)
  | spend (id : ℕ)

/-- A build no more holds what it has released; none for a range that it does not have. -/
def buildStep (s : Builds) : BuildEvent → Option Builds
  | .locateBillet build blockchain amount minAmount totalRequired ok =>
    match locateBillet ok s.billets s.noWait blockchain amount minAmount totalRequired with
    | (.found id, billets, noWait) => some ⟨billets, noWait, Function.update s.held build (s.held build ++ [id])⟩
    | (_, billets, noWait) => some { s with billets, noWait }
  | .releaseBillets build start count ok =>
    if start + count ≤ (s.held build).length then
      match releaseBillets ok (s.range build start count) s.billets with
      | (.returns, billets) => some { s with
          billets
          held := Function.update s.held build ((s.held build).take start ++ (s.held build).drop (start + count)) }
      | (.throws, billets) => some { s with billets }
    else none
  | .spend id => some { s with billets := setStatus s.billets id .spent }

/-- No billet is held by two builds, and none twice by one. -/
structure HeldOnce (s : Builds) : Prop where
  nodup : ∀ build, (s.held build).Nodup
  apart : ∀ build other, build ≠ other → ∀ id ∈ s.held build, id ∉ s.held other

/-- Billets of a range that were allocated are cleared, and all others are as they were. -/
def ReleaseExact (ids : List ℕ) (t t' : Billets) : Prop :=
  ∀ id, t'.select id = (t.select id).map fun bill =>
    if id ∈ ids ∧ bill.status = .allocated then { bill with status := .cleared } else bill

/-- All billets of a range are allocated, or none is. -/
def AllOrNone (ids : List ℕ) (t : Billets) : Prop :=
  (∀ id ∈ ids, ∀ bill ∈ t.select id, bill.status = .allocated) ∨
    ∀ id ∈ ids, ∀ bill ∈ t.select id, bill.status ≠ .allocated

section
variable {t t' : Billets} {id k : ℕ} {ids : List ℕ} {status : BillStatus} {bill : Billet} {ok : DbCall → Bool} {i : ℕ}

lemma select_setStatus : (setStatus t id status).select k =
    (t.select k).map fun bill => if k = id then { bill with status } else bill := KeyedTable.select_update

lemma select_setStatus_of_ne (h : k ≠ id) : (setStatus t id status).select k = t.select k := by
  rw [select_setStatus]
  simp [h]

/-- A turn of the loop. -/
lemma releaseLoop_cons (ok : DbCall → Bool) (i id : ℕ) (ids : List ℕ) (t : Billets) :
    releaseLoop ok i (id :: ids) t = .error .throws ∨ ∃ bill, t.select id = some bill ∧
      (bill.status ≠ .allocated ∧ releaseLoop ok i (id :: ids) t = .error .returns ∨
        bill.status = .allocated ∧
          releaseLoop ok i (id :: ids) t = releaseLoop ok (i + 1) ids (setStatus t id .cleared)) := by
  rw [releaseLoop]
  by_cases hread : ok (.selectId i)
  · rw [if_neg (not_not.2 hread)]
    cases hselect : t.select id with
    | none => exact .inl rfl
    | some bill =>
      by_cases hstatus : bill.status = .allocated
      · by_cases hinsert : ok (.insert i)
        · exact .inr ⟨bill, rfl, .inr ⟨hstatus, (if_neg (not_not.2 hstatus)).trans (if_neg (not_not.2 hinsert))⟩⟩
        · exact .inl ((if_neg (not_not.2 hstatus)).trans (if_pos hinsert))
      · exact .inr ⟨bill, rfl, .inl ⟨hstatus, if_pos hstatus⟩⟩
  · exact .inl (if_pos hread)

/-- A range that is left behind has been allocated as a whole. -/
lemma releaseLoop_ok (hnodup : ids.Nodup) (h : releaseLoop ok i ids t = .ok t') :
    (∀ id ∈ ids, ∀ bill ∈ t.select id, bill.status = .allocated) ∧
      ∀ k, t'.select k = (t.select k).map fun bill => if k ∈ ids then { bill with status := .cleared } else bill := by
  induction ids generalizing t i with
  | nil =>
    obtain rfl := Except.ok.inj h
    exact ⟨fun id hid => absurd hid List.not_mem_nil, fun k => by simp⟩
  | cons id ids ih =>
    obtain ⟨hid, hnodup⟩ := List.nodup_cons.1 hnodup
    rcases releaseLoop_cons ok i id ids t with heq | ⟨bill, hselect, ⟨-, heq⟩ | ⟨hstatus, heq⟩⟩
    · cases heq.symm.trans h
    · cases heq.symm.trans h
    obtain ⟨hall, hset⟩ := ih hnodup (heq.symm.trans h)
    constructor
    · intro k hk b hb
      rcases List.mem_cons.1 hk with rfl | hk
      · obtain rfl := Option.some.inj (hselect.symm.trans hb)
        exact hstatus
      · have hne : k ≠ id := fun hkid => hid (hkid ▸ hk)
        exact hall k hk b (by rwa [select_setStatus_of_ne hne])
    · intro k
      rw [hset, select_setStatus, Option.map_map]
      congr 1
      funext b
      by_cases hkid : k = id
      · subst hkid
        simp [hid]
      · simp [hkid]

/-- A call that is left early has come to a billet that is not allocated. -/
lemma releaseLoop_returns (hnodup : ids.Nodup) (h : releaseLoop ok i ids t = .error .returns) :
    ∃ id ∈ ids, ∃ bill, t.select id = some bill ∧ bill.status ≠ .allocated := by
  induction ids generalizing t i with
  | nil => cases h
  | cons id ids ih =>
    obtain ⟨hid, hnodup⟩ := List.nodup_cons.1 hnodup
    rcases releaseLoop_cons ok i id ids t with heq | ⟨bill, hselect, ⟨hstatus, -⟩ | ⟨-, heq⟩⟩
    · cases heq.symm.trans h
    · exact ⟨id, List.mem_cons_self, bill, hselect, hstatus⟩
    · obtain ⟨k, hk, b, hb, hne⟩ := ih hnodup (heq.symm.trans h)
      have hkid : k ≠ id := fun hkid => hid (hkid ▸ hk)
      rw [select_setStatus_of_ne hkid] at hb
      exact ⟨k, List.mem_cons_of_mem _ hk, b, hb, hne⟩

/-- A call throws, is left early with the table as it was, or comes to its end. -/
lemma releaseBillets_cases (ok : DbCall → Bool) (ids : List ℕ) (t : Billets) :
    releaseBillets ok ids t = (.throws, t) ∨
      (ids = [] ∨ releaseLoop ok 0 ids t = .error .returns) ∧ releaseBillets ok ids t = (.returns, t) ∨
      ∃ t', releaseLoop ok 0 ids t = .ok t' ∧ releaseBillets ok ids t = (.returns, t') := by
  unfold releaseBillets
  by_cases hlen : ids.length < 1
  · rw [if_pos hlen]
    exact .inr (.inl ⟨.inl (List.length_eq_zero_iff.1 (Nat.lt_one_iff.1 hlen)), rfl⟩)
  rw [if_neg hlen]
  by_cases hbegin : ok .beginWrite
  · rw [if_neg (not_not.2 hbegin)]
    cases releaseLoop ok 0 ids t with
    | error exit =>
      cases exit with
      | throws => exact .inl rfl
      | returns => exact .inr (.inl ⟨.inr rfl, rfl⟩)
    | ok t' =>
      by_cases hcommit : ok .commit
      · exact .inr (.inr ⟨t', rfl, if_pos hcommit⟩)
      · exact .inl (if_neg hcommit)
  · exact .inl (if_pos hbegin)

lemma releaseExact_self_iff : ReleaseExact ids t t ↔ ∀ id ∈ ids, ∀ bill ∈ t.select id, bill.status ≠ .allocated := by
  constructor
  · intro h id hid bill hbill hstatus
    have hselect := h id
    rw [hbill, Option.map_some, if_pos ⟨hid, hstatus⟩] at hselect
    have hsame := congrArg Billet.status (Option.some.inj hselect)
    rw [hstatus] at hsame
    cases hsame
  · intro h id
    cases hselect : t.select id with
    | none => rfl
    | some bill => rw [Option.map_some, if_neg fun hid => h id hid.1 bill hselect hid.2]

/-- A release that returns is exact when all of its billets are allocated, or none is. -/
lemma releaseBillets_exact_iff (hnodup : ids.Nodup) (h : releaseBillets ok ids t = (.returns, t')) :
    ReleaseExact ids t t' ↔ AllOrNone ids t := by
  rcases releaseBillets_cases ok ids t with heq | ⟨hearly, heq⟩ | ⟨t₁, hloop, heq⟩
  · cases heq.symm.trans h
  · obtain rfl := (Prod.mk.inj (heq.symm.trans h)).2
    rw [releaseExact_self_iff]
    rcases hearly with rfl | hearly
    · exact ⟨.inr, fun _ id hid => absurd hid List.not_mem_nil⟩
    · obtain ⟨id, hid, bill, hbill, hstatus⟩ := releaseLoop_returns hnodup hearly
      exact ⟨.inr, fun hall => hall.resolve_left fun hall => hstatus (hall id hid bill hbill)⟩
  · obtain rfl := (Prod.mk.inj (heq.symm.trans h)).2
    obtain ⟨hall, hset⟩ := releaseLoop_ok hnodup hloop
    refine ⟨fun _ => .inl hall, fun _ k => (hset k).trans ?_⟩
    cases hselect : t.select k with
    | none => rfl
    | some bill =>
      have hiff : k ∈ ids ∧ bill.status = .allocated ↔ k ∈ ids := ⟨And.left, fun hk => ⟨hk, hall k hk bill hselect⟩⟩
      simp only [Option.map_some, hiff]

end

/-- Held billets are in the wallet and cannot be located. -/
structure HeldInv (s : Builds) : Prop extends HeldOnce s where
  listed : ∀ build, ∀ id ∈ s.held build, ∃ bill, s.billets.select id = some bill ∧ bill.status ≠ .cleared

section
variable {s s' : Builds} {billets : Billets} {noWait : NoWait} {build id : ℕ}

lemma HeldInv.start (billets : Billets) (noWait : NoWait) : HeldInv (Builds.start billets noWait) where
  nodup _ := List.nodup_nil
  apart _ _ _ _ hid := absurd hid List.not_mem_nil
  listed _ _ hid := absurd hid List.not_mem_nil

/-- Changes of the table that make no held billet available. -/
lemma HeldInv.billets_change (h : HeldInv s)
    (hlisted : ∀ build, ∀ id ∈ s.held build, ∃ bill, billets.select id = some bill ∧ bill.status ≠ .cleared) :
    HeldInv { s with billets, noWait } := ⟨⟨h.nodup, h.apart⟩, hlisted⟩

lemma setStatus_listed {status : BillStatus} {t : Billets} (hstatus : status ≠ .cleared)
    (h : ∃ bill, t.select id = some bill ∧ bill.status ≠ .cleared) (k : ℕ) :
    ∃ bill, (setStatus t k status).select id = some bill ∧ bill.status ≠ .cleared := by
  obtain ⟨bill, hbill, hne⟩ := h
  refine ⟨_, by rw [select_setStatus, hbill, Option.map_some], ?_⟩
  split_ifs
  · exact hstatus
  · exact hne

/-- A billet that was available comes to one build. -/
lemma HeldInv.found (h : HeldInv s) {bill : Billet} (hbill : s.billets.select id = some bill)
    (hcleared : bill.status = .cleared) :
    HeldInv ⟨setStatus s.billets id .allocated, noWait, Function.update s.held build (s.held build ++ [id])⟩ := by
  have hfree : ∀ other, id ∉ s.held other := by
    intro other hid
    obtain ⟨b, hb, hne⟩ := h.listed other id hid
    rw [hbill] at hb
    exact hne (Option.some.inj hb ▸ hcleared)
  have hheld : ∀ other k, k ∈ Function.update s.held build (s.held build ++ [id]) other →
      k ∈ s.held other ∨ other = build ∧ k = id := by
    intro other k hk
    by_cases hother : other = build
    · subst hother
      rw [Function.update_self, List.mem_append, List.mem_singleton] at hk
      exact hk.imp_right fun hk => ⟨rfl, hk⟩
    · rw [Function.update_of_ne hother] at hk
      exact .inl hk
  refine ⟨⟨fun other => ?_, fun a b hne k hka hkb => ?_⟩, fun other k hk => ?_⟩
  · change (Function.update s.held build (s.held build ++ [id]) other).Nodup
    by_cases hother : other = build
    · subst hother
      rw [Function.update_self]
      exact (h.nodup other).append (List.nodup_singleton id) (List.disjoint_singleton.2 (hfree other))
    · rw [Function.update_of_ne hother]
      exact h.nodup other
  · rcases hheld a k hka with hka | ⟨ha, hk⟩ <;> rcases hheld b k hkb with hkb | ⟨hb, hk'⟩
    · exact h.apart a b hne k hka hkb
    · exact hfree a (hk' ▸ hka)
    · exact hfree b (hk ▸ hkb)
    · exact hne (ha.trans hb.symm)
  · rcases hheld other k hk with hk | ⟨-, rfl⟩
    · exact setStatus_listed (by decide) (h.listed other k hk) id
    · exact ⟨{ bill with status := .allocated }, by simp [select_setStatus, hbill], by simp⟩

lemma available_of_first {β : Type} [LinearOrder β] {t : Billets} {p : Billet → Bool} {order : Billet → β} {bill : Billet}
    (h : t.first p order = some bill) (hp : ∀ b, p b → b.status = .cleared) :
    t.select bill.id = some bill ∧ bill.status = .cleared :=
  ⟨KeyedTable.select_key (KeyedTable.mem_of_first h).1, hp bill (KeyedTable.mem_of_first h).2⟩

lemma chooseBillet_available {ok : DbCall → Bool} {t : Billets} {blockchain amount minAmount : ℕ} {bill : Billet}
    (h : chooseBillet ok t blockchain amount minAmount = some (some bill)) :
    t.select bill.id = some bill ∧ bill.status = .cleared := by
  unfold chooseBillet at h
  split at h
  · cases h
  split at h
  · rename_i hselect
    obtain rfl := Option.some.inj (Option.some.inj h)
    exact available_of_first hselect fun b hb => (of_decide_eq_true hb).1.1
  · split at h
    · cases h
    · exact available_of_first (Option.filter_eq_some_iff.1 (Option.some.inj h)).1 fun b hb => (of_decide_eq_true hb).1

/-- `LocateBillet` allocates an available billet, or leaves the table. -/
lemma locateBillet_cases (ok : DbCall → Bool) (t : Billets) (noWait : NoWait)
    (blockchain amount minAmount totalRequired : ℕ) :
    (∃ bill, t.select bill.id = some bill ∧ bill.status = .cleared ∧
      locateBillet ok t noWait blockchain amount minAmount totalRequired =
        (.found bill.id, setStatus t bill.id .allocated, noWait)) ∨
    ∃ result noWait', (∀ id, result ≠ .found id) ∧
      locateBillet ok t noWait blockchain amount minAmount totalRequired = (result, t, noWait') := by
  unfold locateBillet
  cases hchoose : chooseBillet ok t blockchain amount minAmount with
  | none => exact .inr ⟨.throws, noWait, fun _ => Located.noConfusion, rfl⟩
  | some choice =>
    cases choice with
    | none =>
      refine .inr ⟨_, _, fun id => ?_, rfl⟩
      split_ifs
      · exact Located.noConfusion
      · exact Located.noConfusion
    | some bill =>
      obtain ⟨hbill, hcleared⟩ := chooseBillet_available hchoose
      by_cases hok : ok (.insert 0) ∧ ok .commit
      · exact .inl ⟨bill, hbill, hcleared, if_pos hok⟩
      · exact .inr ⟨.throws, noWait, fun _ => Located.noConfusion, if_neg hok⟩

/-- What a build holds is what is left of it without a range, and the range. -/
lemma perm_range (s : Builds) (build start count : ℕ) :
    (s.held build).Perm
      (s.range build start count ++ ((s.held build).take start ++ (s.held build).drop (start + count))) := by
  have hsplit : s.held build =
      (s.held build).take start ++ (s.range build start count ++ (s.held build).drop (start + count)) := by
    rw [Builds.range, ← List.drop_drop, List.take_append_drop, List.take_append_drop]
  nth_rewrite 1 [hsplit]
  exact List.perm_append_comm_assoc ..

/-- A build that has released a range holds the rest. -/
lemma HeldInv.release (h : HeldInv s) {start count : ℕ}
    (hbillets : ∀ k, k ∉ s.range build start count → billets.select k = s.billets.select k) :
    HeldInv { s with
      billets
      held := Function.update s.held build ((s.held build).take start ++ (s.held build).drop (start + count)) } := by
  have hperm := perm_range s build start count
  obtain ⟨-, hnodup, hapart⟩ := List.nodup_append.1 (hperm.nodup_iff.1 (h.nodup build))
  generalize (s.held build).take start ++ (s.held build).drop (start + count) = rest at hperm hnodup hapart ⊢
  have hheld : ∀ other k, k ∈ Function.update s.held build rest other →
      k ∈ s.held other ∧ k ∉ s.range build start count := by
    intro other k hk
    by_cases hother : other = build
    · subst hother
      rw [Function.update_self] at hk
      exact ⟨hperm.mem_iff.2 (List.mem_append_right _ hk), fun hrange => hapart k hrange k hk rfl⟩
    · rw [Function.update_of_ne hother] at hk
      exact ⟨hk, fun hrange => h.apart other build hother k hk (hperm.mem_iff.2 (List.mem_append_left _ hrange))⟩
  refine ⟨⟨fun other => ?_, fun a b hne k hka hkb => h.apart a b hne k (hheld a k hka).1 (hheld b k hkb).1⟩,
    fun other k hk => ?_⟩
  · change (Function.update s.held build rest other).Nodup
    by_cases hother : other = build
    · subst hother
      rwa [Function.update_self]
    · rw [Function.update_of_ne hother]
      exact h.nodup other
  · obtain ⟨hmem, hrange⟩ := hheld other k hk
    obtain ⟨bill, hbill, hne⟩ := h.listed other k hmem
    exact ⟨bill, (hbillets k hrange).trans hbill, hne⟩

lemma range_nodup (h : HeldOnce s) (build start count : ℕ) : (s.range build start count).Nodup :=
  ((h.nodup build).sublist (List.drop_sublist ..)).sublist (List.take_sublist ..)

/-- What a step keeps. -/
theorem HeldInv.step {e : BuildEvent} (h : HeldInv s) (hstep : buildStep s e = some s') : HeldInv s' := by
  cases e with
  | locateBillet build blockchain amount minAmount totalRequired ok =>
    rw [buildStep] at hstep
    rcases locateBillet_cases ok s.billets s.noWait blockchain amount minAmount totalRequired with
      ⟨bill, hbill, hcleared, heq⟩ | ⟨result, noWait, hresult, heq⟩
    · rw [heq] at hstep
      obtain rfl := Option.some.inj hstep
      exact h.found hbill hcleared
    · rw [heq] at hstep
      have hs' : s' = { s with billets := s.billets, noWait } := by
        cases result with
        | found id => exact absurd rfl (hresult id)
        | throws | wait | insufficient => exact (Option.some.inj hstep).symm
      rw [hs']
      exact h.billets_change h.listed
  | releaseBillets build start count ok =>
    rw [buildStep] at hstep
    split at hstep
    · rcases releaseBillets_cases ok (s.range build start count) s.billets with heq | ⟨-, heq⟩ | ⟨t', hloop, heq⟩
      · rw [heq] at hstep
        obtain rfl := Option.some.inj hstep
        exact h.billets_change h.listed
      · rw [heq] at hstep
        obtain rfl := Option.some.inj hstep
        exact h.release fun _ _ => rfl
      · rw [heq] at hstep
        obtain rfl := Option.some.inj hstep
        refine h.release fun k hk => ?_
        rw [(releaseLoop_ok (range_nodup h.toHeldOnce build start count) hloop).2 k]
        simp [hk]
    · cases hstep
  | spend id =>
    obtain rfl := Option.some.inj hstep
    exact h.billets_change fun build k hk => setStatus_listed (by decide) (h.listed build k hk) id

end

/-- In every run no billet is held by two builds, and a release that returns is exact just when all billets of its range
are allocated, or none is. -/
theorem billets_run {billets : Billets} {noWait : NoWait} {es : List BuildEvent} {s : Builds}
    (hrun : Machine.run buildStep (Builds.start billets noWait) es = some s) :
    HeldOnce s ∧ ∀ build start count ok t', releaseBillets ok (s.range build start count) s.billets = (.returns, t') →
      (ReleaseExact (s.range build start count) s.billets t' ↔ AllOrNone (s.range build start count) s.billets) := by
  have h := Machine.run_invariant (fun s e s' hs hstep => HeldInv.step hs hstep) (HeldInv.start billets noWait) hrun
  exact ⟨h.toHeldOnce, fun build start count ok t' hreturns =>
    releaseBillets_exact_iff (range_nodup h.toHeldOnce build start count) hreturns⟩

/-- Two billets of one chain, both available. -/
def twoBillets : Billets := ⟨[⟨1, .cleared, 1, 0, 5, 0⟩, ⟨2, .cleared, 1, 0, 6, 0⟩], by decide⟩

/-- A build takes both of them and releases them. -/
theorem billets_run_two : ∃ s t', Machine.run buildStep (Builds.start twoBillets NoWait.init)
    [.locateBillet 0 1 5 1 5 fun _ => true, .locateBillet 0 1 5 1 5 fun _ => true] = some s ∧ HeldOnce s ∧
      releaseBillets (fun _ => true) (s.range 0 0 2) s.billets = (.returns, t') ∧
        ReleaseExact (s.range 0 0 2) s.billets t' := by
  have hrun : Machine.run buildStep (Builds.start twoBillets NoWait.init)
      [.locateBillet 0 1 5 1 5 fun _ => true, .locateBillet 0 1 5 1 5 fun _ => true] = some _ := rfl
  have hexact := (billets_run hrun).2 0 0 2 (fun _ => true) _ rfl
  exact ⟨_, _, hrun, (billets_run hrun).1, rfl, hexact.2 (.inl (by decide))⟩

/-- The first of them is spent meanwhile, and the other stays allocated when the build releases both. -/
theorem not_releaseExact_spent : ¬∀ (billets : Billets) (noWait : NoWait) (es : List BuildEvent) (s : Builds),
    Machine.run buildStep (Builds.start billets noWait) es = some s →
    ∀ build start count ok t', releaseBillets ok (s.range build start count) s.billets = (.returns, t') →
      ReleaseExact (s.range build start count) s.billets t' := by
  intro h
  have hexact := h twoBillets NoWait.init
    [.locateBillet 0 1 5 1 5 fun _ => true, .locateBillet 0 1 5 1 5 fun _ => true, .spend 1]
    _ rfl 0 0 2 (fun _ => true) _ rfl 2
  exact absurd hexact (by decide)

end CredaCash.Wallet
