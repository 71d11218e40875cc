import CredaCash.CString
import CredaCash.Text.Buf2Uint
import CredaCash.Tracker.Dir

/-! Requests to the directory: the proof of work is checked over the bytes in front of it, and the names are taken from
the lines there. -/

namespace CredaCash.Tracker
open CString Text

def txTimeOffset : ℤ := 1704067200

/-- What a request is checked with. `clock` is the time when a byte of the request is looked at. -/
structure Server where
  checkPow : List UInt8 → UInt64 → UInt64 → ℤ
  torHostname : List UInt8
  difficulty : ℤ
  magicNonce : ℤ
  timeAllowance : ℤ
  clock : ℕ → ℤ

structure Found where
  relayname : List UInt8
  blockname : List UInt8
  pastPow : Bool
  gotTime : Bool

/-- The connection is stopped, or these names are added and a reply is sent. -/
inductive Outcome
  | stop
  | reply (relayname blockname : List UInt8)

def Outcome.added : Outcome → List (List UInt8)
  | stop => []
  | reply relayname blockname => [relayname, blockname].filter (· ≠ [])

/-- `m_nred - 3`, without a sign. -/
def scanLimit (nred : ℕ) : ℕ := (nred + 2^32 - 3) % 2^32

/-- The line feed before the first line of a proof of work. -/
def powScan (limit : ℕ) : ℕ → List UInt8 → Option (Option ℕ)
  | scan, [] => if limit ≤ scan then some none else none
  | scan, c :: p =>
    if limit ≤ scan then some none
    else do if ← startsWith (c :: p) [10, 87, 58] then return some scan else powScan limit (scan + 1) p

section
variable (S : Server)

/-- The proof of work in the line behind a line feed, over the bytes up to there and the name of the server. -/
def powAccepted (mem : List UInt8) (scan : ℕ) : Option Bool := do
  let nonce ← buf2uint64 (some (mem.drop (scan + 3)))
  let rc := S.checkPow (mem.take (scan + 1) ++ S.torHostname) (UInt64.ofInt (S.difficulty * 100000)) nonce
  return rc = 0 ∨ nonce ≠ 0 ∧ nonce = UInt64.ofInt S.magicNonce

def now (scan : ℕ) : UInt64 := UInt64.ofInt ((S.clock scan - txTimeOffset).tdiv 600)

def InWindow (scan : ℕ) (timestamp : UInt64) : Prop :=
  now S scan - UInt64.ofInt ((S.timeAllowance + 9).tdiv 10) ≤ timestamp ∧
    timestamp ≤ now S scan + UInt64.ofInt ((S.timeAllowance + 9).tdiv 10)

instance (scan : ℕ) (timestamp : UInt64) : Decidable (InWindow S scan timestamp) := inferInstanceAs (Decidable (_ ∧ _))

def Found.inPow (found : Found) : Option Found := if found.pastPow then none else some found

/-- A line of the request; `some none` stops the connection. -/
def requestLine (mem : List UInt8) (scan : ℕ) (found : Found) : Option (Option Found) := do
  let p := mem.drop scan
  if ← startsWith p [84, 58] then do
    let timestamp ← buf2uint64 (some (p.drop 2))
    return if InWindow S scan timestamp then { found with gotTime := true }.inPow else none
  else if ← startsWith p [82, 58] then do
    let relayname ← cstring (p.drop 2)
    return { found with relayname }.inPow
  else if ← startsWith p [66, 58] then do
    let blockname ← cstring (p.drop 2)
    return { found with blockname }.inPow
  else if ← startsWith p [87, 58] then return some { found with pastPow := true }
  else if ← startsWith p [81] then do
    return if ← startsWith (p.drop 1) [82, 66, 0] then some found else none
  else return none

/-- The loop over the lines, which has no result when the fuel does not last. -/
def requestLines (mem : List UInt8) (limit : ℕ) : ℕ → ℕ → Found → Option (Option Found)
  | 0, _, _ => none
  | fuel+1, scan, found =>
    if limit ≤ scan then some (some found)
    else do
      if ← startsWith (mem.drop scan) [0] then requestLines mem limit fuel (scan + 1) found
      else match ← requestLine S mem scan found with
        | none => return none
        | some found => do
          let line ← cstring (mem.drop scan)
          requestLines mem limit fuel (scan + line.length + 1) found

def endLines (data : List UInt8) : List UInt8 := data.map fun c => if c = 10 then 0 else c

def finishRequest : Option Found → Outcome
  | none => .stop
  | some found => if found.gotTime then .reply found.relayname found.blockname else .stop

def readLines (data : List UInt8) (accepted : Bool) : Option Outcome :=
  if accepted then
    (requestLines S (endLines data ++ [0]) (scanLimit data.length) (data.length + 2) 0
      ⟨[], [], false, false⟩).map finishRequest
  else some .stop

/-- `HandleReadComplete` with the bytes that have been read, behind which it puts a zero: the buffer has one byte more than
they are. It has no result when it reads beyond that zero. -/
def handleReadComplete (data : List UInt8) : Option Outcome := do
  match ← powScan (scanLimit data.length) 0 (data ++ [0]) with
  | none => return .stop
  | some scan => readLines S data (← powAccepted S (data ++ [0]) scan)

end

def InLine (c : UInt8) : Bool := c ≠ 0 && c ≠ 10

/-- The line that a byte of the request is the first one of. -/
def lineAt (data : List UInt8) (i : ℕ) : List UInt8 := (data.drop i).takeWhile InLine

/-- A line of the request that ends before the line feed at `pow`. -/
structure LineBefore (data : List UInt8) (pow i : ℕ) (line : List UInt8) : Prop where
  start : i = 0 ∨ ∃ c, data[i - 1]? = some c ∧ InLine c = false
  line_eq : lineAt data i = line
  before : i + line.length ≤ pow

def TimeBefore (S : Server) (data : List UInt8) (pow : ℕ) : Prop :=
  ∃ i text timestamp, LineBefore data pow i (84 :: 58 :: text) ∧ buf2uint64 (some (text ++ [0])) = some timestamp ∧
    InWindow S i timestamp

def NameBefore (data : List UInt8) (pow : ℕ) (tag : UInt8) (name : List UInt8) : Prop :=
  ∃ i, LineBefore data pow i (tag :: 58 :: name)

/-- Names that stand in lines before a proof of work over the bytes before it, with a timestamp among these lines. -/
structure Authentic (S : Server) (data : List UInt8) (pow : ℕ) (added : List (List UInt8)) : Prop where
  line : ∃ r, data.drop pow = 10 :: 87 :: 58 :: r
  accepted : ∃ nonce, buf2uint64 (some (data.drop (pow + 3) ++ [0])) = some nonce ∧
    (S.checkPow (data.take (pow + 1) ++ S.torHostname) (UInt64.ofInt (S.difficulty * 100000)) nonce = 0 ∨
      nonce ≠ 0 ∧ nonce = UInt64.ofInt S.magicNonce)
  names : ∀ name ∈ added, NameBefore data pow 82 name ∨ NameBefore data pow 66 name
  time : TimeBefore S data pow

/-- The request is read within its bytes and the zero behind them, and only authentic names are added. -/
def SafeRequest (S : Server) (data : List UInt8) : Prop :=
  ∃ outcome, handleReadComplete S data = some outcome ∧
    (outcome.added ≠ [] → ∃ pow, Authentic S data pow outcome.added)

section
variable {S : Server} {data p line : List UInt8} {i pow scan : ℕ} {found : Found}

lemma endLines_append (data : List UInt8) : ∃ r, endLines data ++ [0] = data.takeWhile InLine ++ 0 :: r := by
  induction data with
  | nil => exact ⟨[], rfl⟩
  | cons c data ih =>
    obtain ⟨r, hr⟩ := ih
    by_cases hc : InLine c
    · have hne : c ≠ 0 ∧ c ≠ 10 := by simpa [InLine] using hc
      refine ⟨r, ?_⟩
      rw [List.takeWhile_cons_of_pos hc, List.cons_append, ← hr]
      simp [endLines, hne.2]
    · refine ⟨endLines data ++ [0], ?_⟩
      rw [List.takeWhile_cons_of_neg hc]
      have hz : (if c = 10 then 0 else c) = 0 := by
        by_cases h10 : c = 10
        · rw [if_pos h10]
        · rw [if_neg h10]
          simpa [InLine, h10] using hc
      simp [endLines, hz]

lemma drop_endLines (h : i ≤ data.length) : ∃ r, (endLines data ++ [0]).drop i = lineAt data i ++ 0 :: r := by
  obtain ⟨r, hr⟩ := endLines_append (data.drop i)
  refine ⟨r, ?_⟩
  rw [lineAt, ← hr, List.drop_append_of_le_length (by simpa [endLines] using h)]
  simp [endLines, List.map_drop]

lemma zero_not_mem_takeWhile (p : List UInt8) : 0 ∉ p.takeWhile InLine := by
  intro h
  exact absurd (List.mem_takeWhile_imp h) (by decide)

lemma lineAt_length_le (hpow : data[pow]? = some 10) (h : i ≤ pow) : i + (lineAt data i).length ≤ pow := by
  by_contra hlt
  obtain ⟨rest, hrest⟩ := List.takeWhile_prefix InLine (l := data.drop i)
  have hget : (lineAt data i)[pow - i]? = some 10 := by
    have happend : (lineAt data i ++ rest)[pow - i]? = (lineAt data i)[pow - i]? := List.getElem?_append_left (by omega)
    rw [← happend, lineAt, hrest, List.getElem?_drop, Nat.add_sub_cancel' h, hpow]
  exact absurd (List.mem_takeWhile_imp (List.mem_of_getElem? hget)) (by decide)

/-- Where the scan for the proof of work ends: it reads no more than two bytes ahead. -/
lemma powScan_spec {limit : ℕ} (scan : ℕ) (p : List UInt8) (h : limit + 2 ≤ scan + p.length) :
    powScan limit scan p = some none ∨
      ∃ k r, powScan limit scan p = some (some (scan + k)) ∧ scan + k < limit ∧ p.drop k = 10 :: 87 :: 58 :: r := by
  induction p generalizing scan with
  | nil =>
    rw [List.length_nil] at h
    exact .inl (by rw [powScan, if_pos (by omega)])
  | cons c p ih =>
    rw [List.length_cons] at h
    by_cases hlt : limit ≤ scan
    · exact .inl (by rw [powScan, if_pos hlt])
    · obtain ⟨b, hb⟩ : ∃ b, startsWith (c :: p) [10, 87, 58] = some b := startsWith_of_le (by simp; omega)
      rw [powScan, if_neg hlt, hb]
      cases b with
      | true =>
        obtain ⟨r, hr⟩ := startsWith_eq_true.1 hb
        exact .inr ⟨0, r, rfl, by omega, hr⟩
      | false =>
        rcases ih (scan + 1) (by omega) with hno | ⟨k, r, hsome, hk, hr⟩
        · exact .inl hno
        · refine .inr ⟨k + 1, r, ?_, by omega, hr⟩
          rw [show scan + (k + 1) = scan + 1 + k by omega]
          exact hsome

inductive LineStep (S : Server) (scan : ℕ) : List UInt8 → Found → Found → Prop
  | time {text timestamp found} (value : buf2uint64 (some (text ++ [0])) = some timestamp)
      (allowed : InWindow S scan timestamp) (before : found.pastPow = false) :
      LineStep S scan (84 :: 58 :: text) found { found with gotTime := true }
  | relay {name found} (before : found.pastPow = false) :
      LineStep S scan (82 :: 58 :: name) found { found with relayname := name }
  | block {name found} (before : found.pastPow = false) :
      LineStep S scan (66 :: 58 :: name) found { found with blockname := name }
  | pow {text found} : LineStep S scan (87 :: 58 :: text) found { found with pastPow := true }
  | query {text found} : LineStep S scan (81 :: text) found found

lemma Found.inPow_eq_some {found f : Found} (h : found.inPow = some f) : found.pastPow = false ∧ f = found := by
  unfold Found.inPow at h
  split_ifs at h with hp
  exact ⟨Bool.eq_false_iff.2 hp, (Option.some.inj h).symm⟩

lemma exists_tag {r r' : List UInt8} {tag : UInt8} (htag : tag ≠ 0) (h : line ++ 0 :: r = tag :: 58 :: r') :
    ∃ text, line = tag :: 58 :: text ∧ r' = text ++ 0 :: r := by
  rcases line with _ | ⟨c, _ | ⟨c', text⟩⟩
  · exact absurd (List.cons_eq_cons.1 h).1.symm htag
  · have h58 := (List.cons_eq_cons.1 (List.cons_eq_cons.1 h).2).1
    exact absurd h58 (by decide)
  · obtain ⟨rfl, h'⟩ := List.cons_eq_cons.1 h
    obtain ⟨rfl, rfl⟩ := List.cons_eq_cons.1 h'
    exact ⟨text, rfl, rfl⟩

lemma requestLine_spec {mem r : List UInt8} (hmem : mem.drop scan = line ++ 0 :: r) (hz : 0 ∉ line)
    (hlen : 4 ≤ (mem.drop scan).length) (found : Found) :
    ∃ result, requestLine S mem scan found = some result ∧ ∀ f, result = some f → LineStep S scan line found f := by
  have hread : ∀ ts : List UInt8, ts.length ≤ 4 → ∃ b, startsWith (line ++ 0 :: r) ts = some b := by
    intro ts hts
    apply startsWith_of_le
    rw [← hmem]
    omega
  have hdrop : ∀ text : List UInt8, ∃ v, scanUint64 false false 0 (text ++ 0 :: r) = some v :=
    fun text => exists_scanUint64 text r false false 0
  rw [requestLine, hmem]
  obtain ⟨isTime, hT⟩ := hread [84, 58] (by simp)
  rw [hT]
  cases isTime with
  | true =>
    obtain ⟨r', hr'⟩ := startsWith_eq_true.1 hT
    obtain ⟨text, rfl, -⟩ := exists_tag (by decide) hr'
    obtain ⟨timestamp, hts⟩ := hdrop text
    have hend : buf2uint64 (some (text ++ [0])) = some timestamp := by rw [← hts, scanUint64_append]; rfl
    refine ⟨if InWindow S scan timestamp then { found with gotTime := true }.inPow else none, ?_, fun f hf => ?_⟩
    · simp [buf2uint64, hts]
    · split_ifs at hf with hw
      obtain ⟨hpast, rfl⟩ := Found.inPow_eq_some hf
      exact .time hend hw hpast
  | false =>
  obtain ⟨isRelay, hR⟩ := hread [82, 58] (by simp)
  simp only [Option.bind_eq_bind, Option.bind_some, Bool.false_eq_true, if_false]
  rw [hR]
  cases isRelay with
  | true =>
    obtain ⟨r', hr'⟩ := startsWith_eq_true.1 hR
    obtain ⟨name, rfl, -⟩ := exists_tag (by decide) hr'
    have hname : 0 ∉ name := fun h => hz (by simp [h])
    refine ⟨{ found with relayname := name }.inPow, by simp [cstring_append hname], fun f hf => ?_⟩
    obtain ⟨hpast, rfl⟩ := Found.inPow_eq_some hf
    exact .relay hpast
  | false =>
  obtain ⟨isBlock, hB⟩ := hread [66, 58] (by simp)
  simp only [Option.bind_some, Bool.false_eq_true, if_false]
  rw [hB]
  cases isBlock with
  | true =>
    obtain ⟨r', hr'⟩ := startsWith_eq_true.1 hB
    obtain ⟨name, rfl, -⟩ := exists_tag (by decide) hr'
    have hname : 0 ∉ name := fun h => hz (by simp [h])
    refine ⟨{ found with blockname := name }.inPow, by simp [cstring_append hname], fun f hf => ?_⟩
    obtain ⟨hpast, rfl⟩ := Found.inPow_eq_some hf
    exact .block hpast
  | false =>
  obtain ⟨isPow, hW⟩ := hread [87, 58] (by simp)
  simp only [Option.bind_some, Bool.false_eq_true, if_false]
  rw [hW]
  cases isPow with
  | true =>
    obtain ⟨r', hr'⟩ := startsWith_eq_true.1 hW
    obtain ⟨text, rfl, -⟩ := exists_tag (by decide) hr'
    refine ⟨some { found with pastPow := true }, rfl, fun f hf => ?_⟩
    obtain rfl := Option.some.inj hf
    exact .pow
  | false =>
  obtain ⟨isQuery, hQ⟩ := hread [81] (by simp)
  simp only [Option.bind_some, Bool.false_eq_true, if_false]
  rw [hQ]
  cases isQuery with
  | true =>
    obtain ⟨r', hr'⟩ := startsWith_eq_true.1 hQ
    obtain ⟨text, rfl⟩ : ∃ text, line = 81 :: text := by
      cases line with
      | nil => exact absurd (List.cons_eq_cons.1 hr').1 (by decide)
      | cons c text => exact ⟨text, by rw [(List.cons_eq_cons.1 hr').1]⟩
    obtain ⟨b, hb⟩ : ∃ b, startsWith (text ++ 0 :: r) [82, 66, 0] = some b := by
      apply startsWith_of_le
      rw [hmem] at hlen
      simpa using hlen
    refine ⟨if b then some found else none, by simp [hb], fun f hf => ?_⟩
    split_ifs at hf
    obtain rfl := Option.some.inj hf
    exact .query
  | false => exact ⟨none, rfl, fun f hf => absurd hf (by simp)⟩

lemma getElem?_length_takeWhile {c : UInt8} (h : p[(p.takeWhile InLine).length]? = some c) : InLine c = false := by
  induction p with
  | nil => simp at h
  | cons a p ih =>
    by_cases ha : InLine a
    · rw [List.takeWhile_cons_of_pos ha, List.length_cons, List.getElem?_cons_succ] at h
      exact ih h
    · rw [List.takeWhile_cons_of_neg ha] at h
      obtain rfl : a = c := by simpa using h
      exact Bool.eq_false_iff.2 ha

lemma lineAt_end (h : i + (lineAt data i).length < data.length) :
    ∃ c, data[i + (lineAt data i).length]? = some c ∧ InLine c = false := by
  refine ⟨_, List.getElem?_eq_getElem h, ?_⟩
  apply getElem?_length_takeWhile (p := data.drop i)
  rw [List.getElem?_drop]
  exact List.getElem?_eq_getElem h

/-- The loop over the lines: what has been found stands before the proof of work, or the loop is past it. -/
structure LinesInv (S : Server) (data : List UInt8) (pow scan : ℕ) (found : Found) : Prop where
  le : scan ≤ data.length + 1
  start : scan ≤ data.length → scan = 0 ∨ ∃ c, data[scan - 1]? = some c ∧ InLine c = false
  passed : scan ≤ pow + 1 ∨ found.pastPow
  relay : found.relayname ≠ [] → NameBefore data pow 82 found.relayname
  block : found.blockname ≠ [] → NameBefore data pow 66 found.blockname
  time : found.gotTime → TimeBefore S data pow

variable {r : List UInt8}

lemma lineAt_pow (hpow : data.drop pow = 10 :: 87 :: 58 :: r) :
    data[pow]? = some 10 ∧ ∃ text, lineAt data (pow + 1) = 87 :: 58 :: text := by
  constructor
  · rw [← Nat.add_zero pow, ← List.getElem?_drop, hpow]
    rfl
  · have hdrop : data.drop (pow + 1) = 87 :: 58 :: r := by rw [← List.drop_drop, hpow]; rfl
    exact ⟨r.takeWhile InLine, by rw [lineAt, hdrop]; rfl⟩

lemma LineStep.pastPow {f : Found} (h : LineStep S scan line found f) (hp : found.pastPow) : f.pastPow := by
  cases h with
  | time | relay | block | query => exact hp
  | pow => rfl

lemma LinesInv.step {f : Found} (hpow : data.drop pow = 10 :: 87 :: 58 :: r) (hinv : LinesInv S data pow scan found)
    (hle : scan ≤ data.length) (hstep : LineStep S scan (lineAt data scan) found f) :
    LinesInv S data pow (scan + (lineAt data scan).length + 1) f := by
  obtain ⟨hget, text, hline⟩ := lineAt_pow hpow
  have hlen : scan + (lineAt data scan).length ≤ data.length := by
    have hl := (List.takeWhile_prefix InLine (l := data.drop scan)).length_le
    rw [List.length_drop] at hl
    unfold lineAt
    omega
  have hbefore : ∀ {l tag rest}, found.pastPow = false → lineAt data scan = l → l = tag :: rest → tag ≠ 87 →
      LineBefore data pow scan l := by
    intro l tag rest hp hl htag hne
    have hscan : scan ≤ pow := by
      rcases hinv.passed with hle | hpast
      · rcases Nat.le_succ_iff.1 hle with hle | rfl
        · exact hle
        · rw [hline, htag] at hl
          exact absurd (List.cons_eq_cons.1 hl).1.symm hne
      · exact absurd (hp.symm.trans hpast) Bool.false_ne_true
    exact ⟨hinv.start hle, hl, hl ▸ lineAt_length_le hget hscan⟩
  constructor
  case le => omega
  case start =>
    intro hle'
    exact .inr (lineAt_end (by omega))
  case passed =>
    rcases hinv.passed with hpass | hpast
    · rcases Nat.le_succ_iff.1 hpass with hscan | rfl
      · have hend := lineAt_length_le hget hscan
        exact .inl (by omega)
      · right
        rw [hline] at hstep
        cases hstep
        rfl
    · exact .inr (hstep.pastPow hpast)
  case relay =>
    generalize hl : lineAt data scan = l at hstep
    cases hstep with
    | time | block | pow | query => exact hinv.relay
    | relay hp => exact fun _ => ⟨scan, hbefore hp hl rfl (by decide)⟩
  case block =>
    generalize hl : lineAt data scan = l at hstep
    cases hstep with
    | time | relay | pow | query => exact hinv.block
    | block hp => exact fun _ => ⟨scan, hbefore hp hl rfl (by decide)⟩
  case time =>
    generalize hl : lineAt data scan = l at hstep
    cases hstep with
    | relay | block | pow | query => exact hinv.time
    | time hvalue hallowed hp => exact fun _ => ⟨scan, _, _, hbefore hp hl rfl (by decide), hvalue, hallowed⟩

lemma LinesInv.skip (hpow : data.drop pow = 10 :: 87 :: 58 :: r) (hinv : LinesInv S data pow scan found)
    (hle : scan ≤ data.length) (hline : lineAt data scan = []) : LinesInv S data pow (scan + 1) found := by
  obtain ⟨hget, text, hpline⟩ := lineAt_pow hpow
  refine ⟨by omega, fun hle' => .inr ?_, ?_, hinv.relay, hinv.block, hinv.time⟩
  · have hend := @lineAt_end data scan (by rw [hline]; exact hle')
    rwa [hline] at hend
  · rcases hinv.passed with hpass | hpast
    · rcases Nat.le_succ_iff.1 hpass with hscan | rfl
      · exact .inl (Nat.succ_le_succ hscan)
      · rw [hpline] at hline
        exact absurd hline (List.cons_ne_nil _ _)
    · exact .inr hpast

/-- The loop ends within the bytes of the request, and what it has found then stands before the proof of work. -/
lemma requestLines_spec {limit fuel : ℕ} (hpow : data.drop pow = 10 :: 87 :: 58 :: r) (hlimit : limit + 3 = data.length)
    (hfuel : data.length + 2 ≤ fuel + scan) (hinv : LinesInv S data pow scan found) :
    ∃ result, requestLines S (endLines data ++ [0]) limit fuel scan found = some result ∧
      ∀ f, result = some f → ∃ scan', LinesInv S data pow scan' f := by
  induction fuel generalizing scan found with
  | zero =>
    have hle := hinv.le
    omega
  | succ fuel ih =>
    rw [requestLines]
    split_ifs with hlt
    · exact ⟨some found, rfl, fun f hf => ⟨scan, Option.some.inj hf ▸ hinv⟩⟩
    have hle : scan ≤ data.length := by omega
    obtain ⟨r', hr'⟩ := drop_endLines hle
    have hlen : 4 ≤ ((endLines data ++ [0]).drop scan).length := by simp [endLines]; omega
    have hz : 0 ∉ lineAt data scan := zero_not_mem_takeWhile _
    obtain ⟨isEmpty, hE⟩ : ∃ b, startsWith ((endLines data ++ [0]).drop scan) [0] = some b :=
      startsWith_of_le (by rw [List.length_singleton]; omega)
    rw [hE]
    cases isEmpty with
    | true =>
      have hnil : lineAt data scan = [] := by
        obtain ⟨r'', hr''⟩ := startsWith_eq_true.1 hE
        rw [hr'] at hr''
        cases hl : lineAt data scan with
        | nil => rfl
        | cons c l =>
          rw [hl] at hr'' hz
          exact absurd (List.cons_eq_cons.1 hr'').1 (fun hc => hz (by simp [hc]))
      exact ih (by omega) (hinv.skip hpow hle hnil)
    | false =>
      obtain ⟨result, hresult, hstep⟩ := requestLine_spec (S := S) hr' hz hlen found
      simp only [Option.bind_eq_bind, Option.bind_some, Bool.false_eq_true, if_false]
      rw [hresult]
      cases result with
      | none => exact ⟨none, rfl, fun f hf => absurd hf (by simp)⟩
      | some f =>
        simp only [Option.bind_some]
        rw [hr', cstring_append hz]
        exact ih (by omega) (hinv.step hpow hle (hstep f rfl))

/-- Without a proof of work the search goes on to its limit, or beyond the memory. -/
lemma powScan_beyond {limit : ℕ} (h : scan + p.length < limit) (hno : ∀ k r, p.drop k ≠ 10 :: 87 :: 58 :: r) :
    powScan limit scan p = none := by
  induction p generalizing scan with
  | nil => rw [powScan, if_neg (by simpa using h)]
  | cons c p ih =>
    rw [List.length_cons] at h
    have hrest := @ih (scan + 1) (by omega) fun k r hk => hno (k + 1) r hk
    rw [powScan, if_neg (by omega)]
    cases hb : startsWith (c :: p) [10, 87, 58] with
    | none => rfl
    | some b =>
      cases b with
      | true =>
        obtain ⟨r, hr⟩ := startsWith_eq_true.1 hb
        exact absurd hr (hno 0 r)
      | false => exact hrest

/-- A request of one or two bytes is searched on behind its zero. -/
lemma handleReadComplete_short (S : Server) (h0 : 0 ∈ data) (hlen : data.length < 3) :
    handleReadComplete S data = none := by
  have hpos : 0 < data.length := List.length_pos_of_mem h0
  have hlimit : scanLimit data.length = data.length + 4294967293 := by
    unfold scanLimit
    omega
  have hscan : powScan (scanLimit data.length) 0 (data ++ [0]) = none := by
    apply powScan_beyond
    · rw [hlimit, List.length_append, List.length_singleton]
      omega
    · intro k r hk
      have hcount := congrArg List.length hk
      simp only [List.length_drop, List.length_append, List.length_cons, List.length_nil] at hcount
      obtain rfl : k = 0 := by omega
      have hget := congrArg (·[2]?) hk
      have htwo : data.length = 2 := by omega
      simp only [List.drop_zero, List.getElem?_cons_succ, List.getElem?_cons_zero] at hget
      rw [List.getElem?_append_right (by omega), htwo] at hget
      exact absurd hget (by decide)
  rw [handleReadComplete, hscan]
  rfl

lemma readLines_spec {limit : ℕ} (S : Server) (hpow : data.drop pow = 10 :: 87 :: 58 :: r)
    (hlimit : scanLimit data.length = limit) (hlen : limit + 3 = data.length) :
    ∃ outcome, readLines S data true = some outcome ∧ (outcome.added ≠ [] →
      (∀ name ∈ outcome.added, NameBefore data pow 82 name ∨ NameBefore data pow 66 name) ∧ TimeBefore S data pow) := by
  have hinit : LinesInv S data pow 0 ⟨[], [], false, false⟩ :=
    ⟨Nat.zero_le _, fun _ => .inl rfl, .inl (Nat.zero_le _), fun h => absurd rfl h, fun h => absurd rfl h,
      fun h => absurd h Bool.false_ne_true⟩
  have hfuel : data.length + 2 ≤ data.length + 2 + 0 := le_rfl
  obtain ⟨result, hresult, hinv⟩ := requestLines_spec hpow hlen hfuel hinit
  refine ⟨finishRequest result, ?_, ?_⟩
  · rw [readLines, if_pos rfl, hlimit, hresult, Option.map_some]
  · intro hne
    cases result with
    | none => exact absurd rfl hne
    | some f =>
      obtain ⟨scan, hf⟩ := hinv f rfl
      by_cases htime : f.gotTime
      · rw [finishRequest, if_pos htime]
        refine ⟨fun name hname => ?_, hf.time htime⟩
        simp only [Outcome.added, List.mem_filter, List.mem_cons, List.not_mem_nil, or_false, decide_eq_true_eq] at hname
        rcases hname with ⟨rfl | rfl, hname⟩
        · exact .inl (hf.relay hname)
        · exact .inr (hf.block hname)
      · rw [finishRequest, if_neg htime] at hne
        exact absurd rfl hne

lemma powAccepted_spec (S : Server) (h : pow + 3 ≤ data.length) :
    ∃ b, powAccepted S (data ++ [0]) pow = some b ∧ (b = true → ∃ nonce,
      buf2uint64 (some (data.drop (pow + 3) ++ [0])) = some nonce ∧
      (S.checkPow (data.take (pow + 1) ++ S.torHostname) (UInt64.ofInt (S.difficulty * 100000)) nonce = 0 ∨
        nonce ≠ 0 ∧ nonce = UInt64.ofInt S.magicNonce)) := by
  obtain ⟨nonce, hnonce⟩ := exists_scanUint64 (data.drop (pow + 3)) [] false false 0
  have hbuf : buf2uint64 (some (data.drop (pow + 3) ++ [0])) = some nonce := hnonce
  have htake : (data ++ [0]).take (pow + 1) = data.take (pow + 1) := List.take_append_of_le_length (by omega)
  refine ⟨_, ?_, fun hb => ⟨nonce, hbuf, of_decide_eq_true hb⟩⟩
  rw [powAccepted, List.drop_append_of_le_length h, hbuf, ← htake]
  rfl

lemma drop_of_append {n : ℕ} (hlen : 3 ≤ (data.drop n).length) (h : data.drop n ++ [0] = 10 :: 87 :: 58 :: r) :
    data.drop n = 10 :: 87 :: 58 :: data.drop (n + 3) := by
  have htail := congrArg (List.take 3) h
  rw [List.take_append_of_le_length hlen] at htail
  calc data.drop n = (data.drop n).take 3 ++ (data.drop n).drop 3 := (List.take_append_drop 3 _).symm
    _ = [10, 87, 58] ++ data.drop (n + 3) := by rw [htail, List.drop_drop]; rfl

/-- Requests are safe from three bytes on, which the bound on the search for the proof of work takes off. -/
theorem safeRequest_iff (S : Server) (h0 : 0 ∈ data) (hlen : data.length + 1 < 2^32) :
    SafeRequest S data ↔ 3 ≤ data.length := by
  constructor
  · rintro ⟨outcome, h, -⟩
    by_contra hlt
    rw [handleReadComplete_short S h0 (not_le.1 hlt)] at h
    exact Option.some_ne_none _ h.symm
  intro h3
  have hlimit : scanLimit data.length = data.length - 3 := by
    unfold scanLimit
    omega
  rcases powScan_spec 0 (data ++ [0]) (by simp; omega : data.length - 3 + 2 ≤ 0 + (data ++ [0]).length) with
    hno | ⟨pow, r, hsome, hlt, hr⟩
  · refine ⟨.stop, ?_, fun h => absurd rfl h⟩
    rw [handleReadComplete, hlimit, hno]
    rfl
  rw [Nat.zero_add] at hsome hlt
  rw [List.drop_append_of_le_length (by omega)] at hr
  have hpow := drop_of_append (by rw [List.length_drop]; omega) hr
  obtain ⟨accepted, haccepted, hcheck⟩ := powAccepted_spec S (by omega : pow + 3 ≤ data.length)
  have hrun : handleReadComplete S data = readLines S data accepted := by
    rw [handleReadComplete, hlimit, hsome]
    simp only [Option.bind_eq_bind, Option.bind_some]
    rw [haccepted, Option.bind_some]
  cases accepted with
  | false => exact ⟨.stop, hrun, fun h => absurd rfl h⟩
  | true =>
    obtain ⟨outcome, houtcome, hadded⟩ := readLines_spec S hpow hlimit (by omega)
    exact ⟨outcome, hrun.trans houtcome, fun hne => ⟨pow, ⟨_, hpow⟩, hcheck rfl, (hadded hne).1, (hadded hne).2⟩⟩

theorem safeRequest_names :
    SafeRequest ⟨fun _ _ _ => 0, [97], 1, 0, 60, fun _ => 1704067200⟩
      [84, 58, 48, 10, 82, 58, 98, 10, 87, 58, 49, 10, 81, 82, 66, 0] :=
  (safeRequest_iff _ (by decide) (by decide)).2 (by decide)

/-- A request that is only its terminator. -/
theorem not_safeRequest_terminator :
    ¬∀ (S : Server) (data : List UInt8), 0 ∈ data → data.length + 1 < 2^32 → SafeRequest S data := by
  intro h
  obtain ⟨outcome, houtcome, -⟩ := h ⟨fun _ _ _ => 0, [97], 1, 0, 60, fun _ => 1704067200⟩ [0] (by decide) (by decide)
  rw [handleReadComplete_short _ (by decide) (by decide)] at houtcome
  exact Option.some_ne_none _ houtcome.symm

end

end CredaCash.Tracker
