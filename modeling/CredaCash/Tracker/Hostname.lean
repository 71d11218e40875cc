import CredaCash.Regroup
import Mathlib.Data.List.Forall2

/-! The names that the rendezvous directory keeps: 35 bytes, written as 56 characters to the base 32. -/

namespace CredaCash.Tracker
open Regroup

/-- Bytes of a host name, and the characters that it is written with. -/
def torHostnameBytes : ℕ := 35
def torHostnameChars : ℕ := 56

/-- A host name in binary. -/
structure Hostname where
  bytes : List UInt8
  length_bytes : bytes.length = torHostnameBytes
deriving DecidableEq

/-- The bytes that stand for a cleared name. -/
def clearedHostname : Hostname := ⟨List.replicate torHostnameBytes 0, List.length_replicate ..⟩

/-- The five bits of a character: letters of either case, then the digits from 2 to 7. -/
def charBits (c : UInt8) : Option ℕ :=
  if c < 50 then none
  else if c ≤ 55 then some (c.toNat + 26 - 50)
  else if c < 65 then none
  else if c ≤ 90 then some (c.toNat - 65)
  else if c < 97 then none
  else if c ≤ 122 then some (c.toNat - 97)
  else none

/-- The bits of the characters in turn, none on the first bad one. -/
def charsBits : List UInt8 → Option (List ℕ)
  | [] => some []
  | c :: cs => (charBits c).bind fun d => (charsBits cs).map (d :: ·)

lemma charBits_lt {c : UInt8} {d : ℕ} (h : charBits c = some d) : d < 2^5 := by
  unfold charBits at h
  simp only [UInt8.lt_iff_toNat_lt, UInt8.le_iff_toNat_le] at h
  have hconst : (50 : UInt8).toNat = 50 ∧ (55 : UInt8).toNat = 55 ∧ (65 : UInt8).toNat = 65 ∧ (90 : UInt8).toNat = 90 ∧
      (97 : UInt8).toNat = 97 ∧ (122 : UInt8).toNat = 122 := by decide
  obtain ⟨h50, h55, h65, h90, h97, h122⟩ := hconst
  rw [h50, h55, h65, h90, h97, h122] at h
  split_ifs at h <;> simp only [Option.some.injEq] at h <;> omega

lemma charsBits_eq_some {cs : List UInt8} {ds : List ℕ} (h : charsBits cs = some ds) :
    List.Forall₂ (fun c d => charBits c = some d) cs ds := by
  induction cs generalizing ds with
  | nil =>
    cases h
    exact List.Forall₂.nil
  | cons c cs ih =>
    obtain ⟨d, hd, h⟩ := Option.bind_eq_some_iff.1 h
    obtain ⟨ds', hds, rfl⟩ := Option.map_eq_some_iff.1 h
    exact List.Forall₂.cons hd (ih hds)

lemma charsBits_lt {cs : List UInt8} {ds : List ℕ} (h : charsBits cs = some ds) : ∀ d ∈ ds, d < 2^5 := by
  intro d hd
  obtain ⟨i, hi, rfl⟩ := List.getElem_of_mem hd
  have hall := charsBits_eq_some h
  exact charBits_lt (hall.get (hall.length_eq ▸ hi) hi)

lemma length_regrouped {cs : List UInt8} {ds : List ℕ} (hlen : cs.length = torHostnameChars) (h : charsBits cs = some ds) :
    ((regroup 32 5 8 0 0 ds).1.map UInt8.ofNat).length = torHostnameBytes := by
  have hds : ds.length = 56 := (charsBits_eq_some h).length_eq.symm.trans hlen
  obtain ⟨-, hlen'⟩ := regroup_regroup (W := 32) (w := 5) (v := 8) (by decide) (by decide) (by decide) (charsBits_lt h)
    (by rw [hds]; decide)
  rw [hds] at hlen'
  rw [List.length_map, torHostnameBytes]
  omega

/-- A name in binary; none for another number of characters or a bad character. -/
def nameToBinary (namestr : List UInt8) : Option Hostname :=
  if hlen : namestr.length = torHostnameChars then
    match h : charsBits namestr with
    | none => none
    | some ds => some ⟨(regroup 32 5 8 0 0 ds).1.map UInt8.ofNat, length_regrouped hlen h⟩
  else none

/-- The character of five bits. -/
def bitsChar (d : ℕ) : UInt8 := if d < 26 then UInt8.ofNat (d + 97) else UInt8.ofNat (d + 50 - 26)

/-- The characters of a name in binary. -/
def nameToString (name : Hostname) : List UInt8 := (regroup 32 8 5 0 0 (name.bytes.map UInt8.toNat)).1.map bitsChar

lemma charBits_bitsChar {d : ℕ} (h : d < 2^5) : charBits (bitsChar d) = some d := by
  have hall : ∀ e ∈ List.range 32, charBits (bitsChar e) = some e := by decide
  exact hall d (List.mem_range.2 h)

lemma charsBits_map_bitsChar {ds : List ℕ} (h : ∀ d ∈ ds, d < 2^5) : charsBits (ds.map bitsChar) = some ds := by
  induction ds with
  | nil => rfl
  | cons d ds ih =>
    rw [List.map_cons, charsBits, charBits_bitsChar (h d List.mem_cons_self), Option.bind_some,
      ih fun e he => h e (List.mem_cons_of_mem d he), Option.map_some]

lemma bytes_lt (bytes : List UInt8) : ∀ d ∈ bytes.map UInt8.toNat, d < 2^8 := by
  intro d hd
  obtain ⟨b, -, rfl⟩ := List.mem_map.1 hd
  exact b.toNat_lt

/-- A name comes back from its characters. -/
theorem nameToBinary_nameToString (name : Hostname) : nameToBinary (nameToString name) = some name := by
  have hlen : (name.bytes.map UInt8.toNat).length = 35 := by rw [List.length_map, name.length_bytes, torHostnameBytes]
  obtain ⟨hback, hcount⟩ := regroup_regroup (W := 32) (w := 8) (v := 5) (by decide) (by decide) (by decide)
    (bytes_lt name.bytes) (by rw [hlen]; decide)
  obtain ⟨-, -, hdigits, -⟩ := @regroup_spec 32 8 5 (by decide) (by decide) 0 0 _ (by decide)
    (bytes_lt name.bytes)
  have hchars : (nameToString name).length = torHostnameChars := by
    rw [hlen] at hcount
    rw [nameToString, List.length_map, torHostnameChars]
    omega
  have hbits : charsBits (nameToString name) = some (regroup 32 8 5 0 0 (name.bytes.map UInt8.toNat)).1 :=
    charsBits_map_bitsChar hdigits
  unfold nameToBinary
  rw [dif_pos hchars]
  split
  · rename_i h
    rw [hbits] at h
    cases h
  · rename_i ds h
    rw [hbits] at h
    obtain rfl := Option.some.inj h
    simp only [hback, List.map_map, Option.some.injEq]
    cases name
    simp [Function.comp_def]

/-- No two names are written with the same characters. -/
theorem nameToString_injective : Function.Injective nameToString := by
  intro x y h
  have hx := nameToBinary_nameToString x
  rw [h, nameToBinary_nameToString] at hx
  exact (Option.some.inj hx).symm

end CredaCash.Tracker
