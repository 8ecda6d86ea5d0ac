import Mathlib.Tactic

/-!
# Decimal integers and quoted strings as Go writes and reads them

`%d` and `strconv.FormatInt(n, 10)` write an optional minus sign and the decimal
digits; `strconv.ParseInt(s, 10, 64)` reads an optional sign and at least one
digit, and nothing else; the `%d` verb of `fmt.Sscanf` reads an optional sign
and the digits that follow, leaving the rest of the input. Values stay within
64 bits here, so the range checks are left out.
-/

namespace GoDecimal

/-- The decimal digits of `n`, least significant first, at most `fuel` of them. -/
def digitsRev : ℕ → ℕ → List ℕ
  | 0, _ => []
  | fuel + 1, n => if n < 10 then [n] else (n % 10) :: digitsRev fuel (n / 10)

def digitChar (d : ℕ) : Char := Char.ofNat (48 + d)

def formatNat (n : ℕ) : String := String.ofList ((digitsRev (n + 1) n).reverse.map digitChar)

def formatInt (n : ℤ) : String := if n < 0 then "-" ++ formatNat n.natAbs else formatNat n.toNat

/-- The value of decimal digits, most significant first, after `acc`. -/
def digitsValue (acc : ℕ) (cs : List Char) : ℕ := cs.foldl (fun a c => a * 10 + (c.toNat - 48)) acc

def parseNatChars (cs : List Char) : Option ℕ := if cs ≠ [] ∧ cs.all Char.isDigit then some (digitsValue 0 cs) else none

def parseInt (s : String) : Option ℤ :=
  match s.toList with
  | '-' :: cs => (parseNatChars cs).map fun (n : ℕ) => -(n : ℤ)
  | '+' :: cs => (parseNatChars cs).map fun (n : ℕ) => (n : ℤ)
  | cs => (parseNatChars cs).map fun (n : ℕ) => (n : ℤ)

/-- The `%d` verb of `fmt.Sscanf`: an optional sign and the digits after it, and
the input left. -/
def scanInt (cs : List Char) : Option (ℤ × List Char) :=
  let signed : ℤ × List Char := match cs with
    | '-' :: rest => (-1, rest)
    | '+' :: rest => (1, rest)
    | rest => (1, rest)
  let digits := signed.2.takeWhile Char.isDigit
  if digits = [] then none else some (signed.1 * digitsValue 0 digits, signed.2.dropWhile Char.isDigit)

/-- `fmt.Sscanf(s, "%d-%d", &start, &end)` when it reads both numbers. -/
def scanRange (s : String) : Option (ℤ × ℤ) :=
  match scanInt s.toList with
  | some (start, '-' :: rest) => (scanInt rest).map fun r => (start, r.1)
  | _ => none

def hexDigit (n : ℕ) : Char := if n < 10 then Char.ofNat (48 + n) else Char.ofNat (87 + n)

/-- How `strconv.Quote` writes one character: the quote and the backslash
escaped, the C escapes of the control characters that have one, other ASCII
control characters as `\xNN`, everything else as it is. -/
def quoteChar (c : Char) : List Char :=
  if c = '"' then ['\\', '"']
  else if c = '\\' then ['\\', '\\']
  else if c = '\x07' then ['\\', 'a']
  else if c = '\x08' then ['\\', 'b']
  else if c = '\x0C' then ['\\', 'f']
  else if c = '\n' then ['\\', 'n']
  else if c = '\r' then ['\\', 'r']
  else if c = '\t' then ['\\', 't']
  else if c = '\x0B' then ['\\', 'v']
  else if c.toNat < 0x20 ∨ c.toNat = 0x7F then ['\\', 'x', hexDigit (c.toNat / 16), hexDigit (c.toNat % 16)]
  else [c]

def quote (s : String) : String := String.ofList ('"' :: s.toList.flatMap quoteChar ++ ['"'])

/-! ## Writing and reading back -/

def valueRev : List ℕ → ℕ
  | [] => 0
  | d :: ds => d + 10 * valueRev ds

theorem digitsRev_ne_nil {fuel : ℕ} (hfuel : 0 < fuel) (n : ℕ) : digitsRev fuel n ≠ [] := by
  obtain ⟨fuel, rfl⟩ := Nat.exists_eq_add_of_lt hfuel
  unfold digitsRev
  split_ifs <;> simp

theorem digitsRev_lt_ten : ∀ (fuel n : ℕ), ∀ d ∈ digitsRev fuel n, d < 10
  | 0, _ => by simp [digitsRev]
  | fuel + 1, n => by
    unfold digitsRev
    split_ifs with h
    · simpa using h
    · intro d hd
      rcases List.mem_cons.mp hd with rfl | hd
      · exact Nat.mod_lt _ (by norm_num)
      · exact digitsRev_lt_ten fuel (n / 10) d hd

theorem valueRev_digitsRev : ∀ (fuel n : ℕ), n < fuel → valueRev (digitsRev fuel n) = n
  | 0, _, h => absurd h (Nat.not_lt_zero _)
  | fuel + 1, n, h => by
    unfold digitsRev
    split_ifs with hn
    · simp [valueRev]
    · have hfuel : n / 10 < fuel := by omega
      simp only [valueRev, valueRev_digitsRev fuel (n / 10) hfuel]
      omega

theorem digitsValue_append (acc : ℕ) (cs ds : List Char) :
    digitsValue acc (cs ++ ds) = digitsValue (digitsValue acc cs) ds :=
  List.foldl_append

theorem toNat_digitChar {d : ℕ} (hd : d < 10) : (digitChar d).toNat = 48 + d := by
  unfold digitChar
  rw [Char.ofNat, dif_pos (by unfold Nat.isValidChar; omega)]
  rfl

theorem isDigit_digitChar : ∀ d, d < 10 → (digitChar d).isDigit = true := by
  decide

theorem digitsValue_digitChars {ds : List ℕ} (hds : ∀ d ∈ ds, d < 10) (acc : ℕ) :
    digitsValue acc (ds.reverse.map digitChar) = acc * 10 ^ ds.length + valueRev ds := by
  induction ds generalizing acc with
  | nil => simp [digitsValue, valueRev]
  | cons d ds ih =>
    have hd : d < 10 := hds d (List.mem_cons_self ..)
    rw [List.reverse_cons, List.map_append, digitsValue_append, ih (fun d hd => hds d (List.mem_cons_of_mem _ hd))]
    simp only [List.map_cons, List.map_nil, digitsValue, List.foldl_cons, List.foldl_nil, toNat_digitChar hd,
      valueRev, List.length_cons, pow_succ]
    ring_nf
    omega

theorem formatNat_toList (n : ℕ) : (formatNat n).toList = (digitsRev (n + 1) n).reverse.map digitChar :=
  String.toList_ofList

theorem all_isDigit_formatNat (n : ℕ) : (formatNat n).toList.all Char.isDigit = true := by
  rw [formatNat_toList, List.all_eq_true]
  intro c hc
  obtain ⟨d, hd, rfl⟩ := List.mem_map.mp hc
  exact isDigit_digitChar _ (digitsRev_lt_ten _ _ d (List.mem_reverse.mp hd))

theorem not_mem_formatNat {c : Char} (hc : c.isDigit = false) (n : ℕ) : c ∉ (formatNat n).toList := by
  intro hmem
  have hdigit := List.all_eq_true.mp (all_isDigit_formatNat n) c hmem
  rw [hc] at hdigit
  exact Bool.false_ne_true hdigit

theorem formatNat_ne_nil (n : ℕ) : (formatNat n).toList ≠ [] := by
  simpa [formatNat_toList] using digitsRev_ne_nil (Nat.succ_pos n) n

theorem parseNatChars_formatNat (n : ℕ) : parseNatChars (formatNat n).toList = some n := by
  rw [parseNatChars, if_pos ⟨formatNat_ne_nil n, all_isDigit_formatNat n⟩, formatNat_toList,
    digitsValue_digitChars (digitsRev_lt_ten _ _), valueRev_digitsRev _ _ (Nat.lt_succ_self n)]
  simp

theorem formatNat_head (n : ℕ) : ∃ c cs, (formatNat n).toList = c :: cs ∧ Char.isDigit c = true := by
  obtain ⟨c, cs, hcs⟩ := List.exists_cons_of_ne_nil (formatNat_ne_nil n)
  refine ⟨c, cs, hcs, ?_⟩
  have := all_isDigit_formatNat n
  rw [hcs] at this
  simp only [List.all_cons, Bool.and_eq_true] at this
  exact this.1

theorem ne_sign_of_isDigit {c : Char} (h : c.isDigit = true) : c ≠ '-' ∧ c ≠ '+' := by
  constructor <;> rintro rfl <;> revert h <;> decide

theorem formatInt_natCast (n : ℕ) : formatInt n = formatNat n := by
  simp [formatInt]

theorem parseInt_formatInt (n : ℤ) : parseInt (formatInt n) = some n := by
  unfold formatInt
  split_ifs with hn
  · have hchars : ("-" ++ formatNat n.natAbs).toList = '-' :: (formatNat n.natAbs).toList := by simp
    simp only [parseInt, hchars, parseNatChars_formatNat, Option.map_some, Option.some.injEq]
    omega
  · obtain ⟨c, cs, hcs, hc⟩ := formatNat_head n.toNat
    obtain ⟨hminus, hplus⟩ := ne_sign_of_isDigit hc
    have hparse := parseNatChars_formatNat n.toNat
    rw [hcs] at hparse
    simp only [parseInt, hcs]
    split
    · rename_i heq; exact absurd (List.cons.inj heq).1 hminus
    · rename_i heq; exact absurd (List.cons.inj heq).1 hplus
    · simp only [hparse, Option.map_some, Option.some.injEq]
      omega

theorem scanInt_digits {cs rest : List Char} (hcs : cs ≠ []) (hall : cs.all Char.isDigit = true)
    (hhead : ∀ c ∈ cs.head?, c ≠ '-' ∧ c ≠ '+') (hrest : ∀ c ∈ rest.head?, Char.isDigit c = false) :
    scanInt (cs ++ rest) = some (((digitsValue 0 cs : ℕ) : ℤ), rest) := by
  have htake : (cs ++ rest).takeWhile Char.isDigit = cs := by
    rw [List.takeWhile_append_of_pos (fun c hc => List.all_eq_true.mp hall c hc)]
    cases rest with
    | nil => simp
    | cons r rs => simp [hrest r (by simp)]
  have hdrop : (cs ++ rest).dropWhile Char.isDigit = rest := by
    rw [List.dropWhile_append_of_pos (fun c hc => List.all_eq_true.mp hall c hc)]
    cases rest with
    | nil => simp
    | cons r rs => simp [hrest r (by simp)]
  obtain ⟨c, cs', rfl⟩ := List.exists_cons_of_ne_nil hcs
  obtain ⟨hminus, hplus⟩ := hhead c (by simp)
  simp only [List.cons_append] at htake hdrop
  unfold scanInt
  split
  · rename_i heq; exact absurd (List.cons.inj heq).1 hminus
  · rename_i heq; exact absurd (List.cons.inj heq).1 hplus
  · simp [htake, hdrop]

theorem scanRange_zero (n : ℕ) : scanRange ("0-" ++ formatNat n) = some (0, (n : ℤ)) := by
  obtain ⟨c, cs, hcs, hc⟩ := formatNat_head n
  have hfirst : scanInt ("0-" ++ formatNat n).toList = some (0, '-' :: (formatNat n).toList) := by
    have := @scanInt_digits ['0'] ('-' :: (formatNat n).toList) (by simp) (by decide)
      (by simp) (by simp)
    have hzero : digitsValue 0 ['0'] = 0 := rfl
    simpa [hzero] using this
  have hsecond : scanInt (formatNat n).toList = some ((n : ℤ), []) := by
    have := @scanInt_digits (formatNat n).toList [] (formatNat_ne_nil n) (all_isDigit_formatNat n)
      (by rw [hcs]; simpa using ne_sign_of_isDigit hc) (by simp)
    have hval := parseNatChars_formatNat n
    rw [parseNatChars, if_pos ⟨formatNat_ne_nil n, all_isDigit_formatNat n⟩] at hval
    simpa [Option.some.inj hval] using this
  rw [scanRange, hfirst]
  simp [hsecond]

end GoDecimal
