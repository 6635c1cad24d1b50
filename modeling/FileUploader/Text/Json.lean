import Mathlib.Data.List.Nodup
import Mathlib.Data.List.Basic

/-! # JSON texts

`json.dumps` with its default settings, which escapes everything that is not printable ASCII,
and `json.loads`. Numbers are integers; fractions, exponents and the lone surrogates that a
Python string may hold are left out. What is dumped is loaded again.
-/

namespace JsonText

/-- What a JSON text stands for. The members of an object are in the order of insertion. -/
inductive Value where
  | null
  | bool (b : Bool)
  | int (n : Int)
  | str (s : String)
  | array (items : List Value)
  | object (members : List (String × Value))

/-! ## Writing -/

/-- `'\\u\x7b0:04x\x7d'.format(n)` -/
def unicodeEscape (n : Nat) : List Char :=
  ['\\', 'u', Nat.digitChar (n / 4096 % 16), Nat.digitChar (n / 256 % 16),
    Nat.digitChar (n / 16 % 16), Nat.digitChar (n % 16)]

/-- The characters with an escape of their own, and the letters for them. -/
def shortEscapes : List (Char × Char) :=
  [('"', '"'), ('\\', '\\'), ('\n', 'n'), ('\r', 'r'), ('\t', 't'), ('\x08', 'b'), ('\x0c', 'f')]

/-- One character inside a string. Above 0xffff it takes a pair of surrogates. -/
def escape (c : Char) : List Char :=
  match shortEscapes.find? fun e => e.1 = c with
  | some e => ['\\', e.2]
  | none =>
      if ' ' ≤ c ∧ c ≤ '~' then [c]
      else if c.toNat < 0x10000 then unicodeEscape c.toNat
      else
        unicodeEscape (0xd800 + (c.toNat - 0x10000) / 1024 % 1024) ++
          unicodeEscape (0xdc00 + (c.toNat - 0x10000) % 1024)

def dumpsString (s : String) : List Char := '"' :: (s.toList.flatMap escape ++ ['"'])

def dumpsInt (n : Int) : List Char :=
  if n < 0 then '-' :: Nat.toDigits 10 n.natAbs else Nat.toDigits 10 n.natAbs

mutual

/-- `json.dumps(v)` -/
def dumps : Value → List Char
  | .null => ['n', 'u', 'l', 'l']
  | .bool true => ['t', 'r', 'u', 'e']
  | .bool false => ['f', 'a', 'l', 's', 'e']
  | .int n => dumpsInt n
  | .str s => dumpsString s
  | .array [] => ['[', ']']
  | .array (v :: vs) => '[' :: (dumps v ++ dumpsItems vs)
  | .object [] => ['\x7b', '\x7d']
  | .object ((k, v) :: ms) =>
      '\x7b' :: (dumpsString k ++ ([':', ' '] ++ (dumps v ++ dumpsMembers ms)))

/-- The items after the first, and the closing bracket. -/
def dumpsItems : List Value → List Char
  | [] => [']']
  | v :: vs => [',', ' '] ++ (dumps v ++ dumpsItems vs)

/-- The members after the first, and the closing brace. -/
def dumpsMembers : List (String × Value) → List Char
  | [] => ['\x7d']
  | (k, v) :: ms =>
      [',', ' '] ++ (dumpsString k ++ ([':', ' '] ++ (dumps v ++ dumpsMembers ms)))

end

/-! ## Reading -/

def isSpace (c : Char) : Bool := c = ' ' ∨ c = '\t' ∨ c = '\n' ∨ c = '\r'

def skipSpace (cs : List Char) : List Char := cs.dropWhile isSpace

/-- The value of a hexadecimal digit, of either case. -/
def hexValue (c : Char) : Option Nat := (List.range 16).find? fun d => Nat.digitChar d = c.toLower

/-- The number that four hexadecimal digits stand for. -/
def hex4 (a b c d : Char) : Option Nat := do
  let a ← hexValue a
  let b ← hexValue b
  let c ← hexValue c
  let d ← hexValue d
  some (((a * 16 + b) * 16 + c) * 16 + d)

/-- `chr(n)`, where it is not a lone surrogate. -/
def chr (n : Nat) : Option Char := if n.isValidChar then some (Char.ofNat n) else none

def isHigh (n : Nat) : Bool := 0xd800 ≤ n ∧ n ≤ 0xdbff
def isLow (n : Nat) : Bool := 0xdc00 ≤ n ∧ n ≤ 0xdfff

/-- The character of a pair of surrogates. -/
def paired (high low : Nat) : Option Char := chr (0x10000 + (high - 0xd800) * 1024 + (low - 0xdc00))

/-- The rest of a string up to its closing quote, and what follows it. -/
def scanString : List Char → Option (List Char × List Char)
  | [] => none
  | '"' :: cs => some ([], cs)
  | '\\' :: 'u' :: a :: b :: c :: d :: cs => do
      let n ← hex4 a b c d
      if isHigh n then
        match cs with
        | '\\' :: 'u' :: a' :: b' :: c' :: d' :: cs => do
            let m ← hex4 a' b' c' d'
            let x ← if isLow m then paired n m else none
            let (xs, rest) ← scanString cs
            some (x :: xs, rest)
        | _ => none
      else do
        let x ← chr n
        let (xs, rest) ← scanString cs
        some (x :: xs, rest)
  | '\\' :: c :: cs => do
      let e ← (('/', '/') :: shortEscapes).find? fun e => e.2 = c
      let (xs, rest) ← scanString cs
      some (e.1 :: xs, rest)
  | c :: cs =>
      if c < ' ' ∨ c = '\\' then none
      else do
        let (xs, rest) ← scanString cs
        some (c :: xs, rest)

/-- `-?(0|[1-9][0-9]*)` -/
def scanNat : List Char → Option (Nat × List Char)
  | [] => none
  | '0' :: rest => some (0, rest)
  | c :: cs =>
      if c.isDigit then
        some (Nat.ofDigitChars 10 ((c :: cs).takeWhile Char.isDigit) 0,
          (c :: cs).dropWhile Char.isDigit)
      else none

def scanInt : List Char → Option (Int × List Char)
  | '-' :: cs => (scanNat cs).map fun (n, rest) => (-n, rest)
  | cs => (scanNat cs).map fun (n, rest) => (n, rest)

/-- `d[k] = v` -/
def setMember (members : List (String × Value)) (k : String) (v : Value) : List (String × Value) :=
  if k ∈ members.map Prod.fst then members.map fun m => if m.1 = k then (k, v) else m
  else members ++ [(k, v)]

/-- `dict(pairs)` -/
def dictOf (pairs : List (String × Value)) : List (String × Value) :=
  pairs.foldl (fun members m => setMember members m.1 m.2) []

mutual

/-- `scan_once`; the fuel bounds the nesting and the lengths of arrays and objects. -/
def scanValue : Nat → List Char → Option (Value × List Char)
  | 0, _ => none
  | fuel + 1, cs =>
      match cs with
      | '"' :: cs => (scanString cs).map fun (s, rest) => (.str (String.ofList s), rest)
      | '[' :: cs =>
          match skipSpace cs with
          | ']' :: rest => some (.array [], rest)
          | cs => (scanItems fuel cs).map fun (vs, rest) => (.array vs, rest)
      | '\x7b' :: cs =>
          match skipSpace cs with
          | '\x7d' :: rest => some (.object [], rest)
          | cs => (scanMembers fuel cs).map fun (ms, rest) => (.object (dictOf ms), rest)
      | 'n' :: 'u' :: 'l' :: 'l' :: rest => some (.null, rest)
      | 't' :: 'r' :: 'u' :: 'e' :: rest => some (.bool true, rest)
      | 'f' :: 'a' :: 'l' :: 's' :: 'e' :: rest => some (.bool false, rest)
      | cs => (scanInt cs).map fun (n, rest) => (.int n, rest)

/-- At least one item, up to the closing bracket. -/
def scanItems : Nat → List Char → Option (List Value × List Char)
  | 0, _ => none
  | fuel + 1, cs => do
      let (v, rest) ← scanValue fuel cs
      match skipSpace rest with
      | ']' :: rest => some ([v], rest)
      | ',' :: rest => (scanItems fuel (skipSpace rest)).map fun (vs, rest) => (v :: vs, rest)
      | _ => none

/-- At least one member, up to the closing brace. -/
def scanMembers : Nat → List Char → Option (List (String × Value) × List Char)
  | fuel + 1, '"' :: cs => do
      let (k, rest) ← scanString cs
      match skipSpace rest with
      | ':' :: rest => do
          let (v, rest) ← scanValue fuel (skipSpace rest)
          match skipSpace rest with
          | '\x7d' :: rest => some ([(String.ofList k, v)], rest)
          | ',' :: rest =>
              (scanMembers fuel (skipSpace rest)).map fun (ms, rest) =>
                ((String.ofList k, v) :: ms, rest)
          | _ => none
      | _ => none
  | _, _ => none

end

/-- `json.loads(s)`; `none` where it raises. -/
def loads (cs : List Char) : Option Value := do
  let (v, rest) ← scanValue (cs.length + 1) (skipSpace cs)
  if skipSpace rest = [] then some v else none

namespace Value

/-- `v[k]` -/
def member? : Value → String → Option Value
  | .object members, k => (members.find? fun m => m.1 = k).map Prod.snd
  | _, _ => none

end Value

/-! ## Strings are read back -/

theorem hexValue_digitChar : ∀ d < 16, hexValue (Nat.digitChar d) = some d := by decide

/-- Four hexadecimal digits hold any number below 0x10000. -/
theorem hex4_unicodeEscape {n : Nat} (h : n < 0x10000) :
    hex4 (Nat.digitChar (n / 4096 % 16)) (Nat.digitChar (n / 256 % 16))
      (Nat.digitChar (n / 16 % 16)) (Nat.digitChar (n % 16)) = some n := by
  have hdigit : ∀ m : Nat, hexValue (Nat.digitChar (m % 16)) = some (m % 16) := fun m =>
    hexValue_digitChar _ (Nat.mod_lt _ (by decide))
  simp only [hex4, hdigit, Option.bind_eq_bind, Option.bind_some]
  congr 1
  omega

/-- A character is read back from its number. -/
theorem chr_toNat (c : Char) : chr c.toNat = some c := by
  have hvalid : c.toNat.isValidChar := c.valid
  rw [chr, if_pos hvalid, Char.ofNat_toNat]

/-- A character is neither kind of surrogate. -/
theorem not_surrogate (c : Char) : c.toNat < 0xd800 ∨ 0xdfff < c.toNat ∧ c.toNat < 0x110000 :=
  c.valid

/-- A short escape is one character of the string. -/
theorem scanString_short {e : Char × Char} (he : e ∈ shortEscapes) (rest : List Char) :
    scanString ('\\' :: e.2 :: rest) = (scanString rest).map fun p => (e.1 :: p.1, p.2) := by
  have hu : e.2 ≠ 'u' := by
    revert e
    decide
  have hfind : (('/', '/') :: shortEscapes).find? (fun e' => e'.2 = e.2) = some e := by
    revert e
    decide
  rw [scanString]
  · rw [hfind]
    cases scanString rest with
    | none => rfl
    | some p => rfl
  · intro a b c d cs hcu _
    exact hu hcu

/-- A printable character stands for itself. -/
theorem scanString_plain {c : Char} (hspace : ' ' ≤ c) (hquote : c ≠ '"') (hback : c ≠ '\\')
    (rest : List Char) :
    scanString (c :: rest) = (scanString rest).map fun p => (c :: p.1, p.2) := by
  have hplain : ¬ (c < ' ' ∨ c = '\\') := by
    intro h
    rcases h with h | h
    · exact absurd hspace (Char.not_le.2 h)
    · exact hback h
  rw [scanString, if_neg hplain]
  · cases scanString rest with
    | none => rfl
    | some p => rfl
  · exact hquote
  · intro a b d e cs hc
    exact absurd hc hback
  · intro d cs hc
    exact absurd hc hback

/-- A numbered escape that is no surrogate is one character. -/
theorem scanString_unicode {c : Char} (hlt : c.toNat < 0x10000) (rest : List Char) :
    scanString (unicodeEscape c.toNat ++ rest) =
      (scanString rest).map fun p => (c :: p.1, p.2) := by
  have hhigh : isHigh c.toNat = false := by
    have hnot := not_surrogate c
    simp only [isHigh, decide_eq_false_iff_not]
    omega
  simp only [unicodeEscape, List.cons_append, List.nil_append]
  rw [scanString, hex4_unicodeEscape hlt]
  simp only [Option.bind_eq_bind, Option.bind_some, hhigh, chr_toNat]
  cases scanString rest with
  | none => rfl
  | some p => rfl

/-- A pair of surrogates is one character. -/
theorem scanString_pair {high low : Nat} {c : Char} (hhigh : isHigh high = true)
    (hlow : isLow low = true) (hpair : paired high low = some c) (rest : List Char) :
    scanString (unicodeEscape high ++ unicodeEscape low ++ rest) =
      (scanString rest).map fun p => (c :: p.1, p.2) := by
  have hlt : high < 0x10000 ∧ low < 0x10000 := by
    simp only [isHigh, isLow, decide_eq_true_eq] at hhigh hlow
    omega
  simp only [unicodeEscape, List.cons_append, List.nil_append]
  rw [scanString, hex4_unicodeEscape hlt.1]
  simp only [Option.bind_eq_bind, Option.bind_some, hhigh, if_true]
  rw [hex4_unicodeEscape hlt.2]
  simp only [Option.bind_some, hlow, if_true, hpair]
  cases scanString rest with
  | none => rfl
  | some p => rfl

/-- The surrogates that a character above 0xffff is written as. -/
theorem paired_surrogates {c : Char} (h : 0x10000 ≤ c.toNat) :
    isHigh (0xd800 + (c.toNat - 0x10000) / 1024 % 1024) = true ∧
      isLow (0xdc00 + (c.toNat - 0x10000) % 1024) = true ∧
      paired (0xd800 + (c.toNat - 0x10000) / 1024 % 1024)
        (0xdc00 + (c.toNat - 0x10000) % 1024) = some c := by
  have hlt : c.toNat < 0x110000 := by
    have hnot := not_surrogate c
    omega
  refine ⟨by simp only [isHigh, decide_eq_true_eq]; omega,
    by simp only [isLow, decide_eq_true_eq]; omega, ?_⟩
  have hsum : 0x10000 + (0xd800 + (c.toNat - 0x10000) / 1024 % 1024 - 0xd800) * 1024 +
      (0xdc00 + (c.toNat - 0x10000) % 1024 - 0xdc00) = c.toNat := by omega
  rw [paired, hsum, chr_toNat]

/-- Each character is read back from its escape. -/
theorem scanString_escape (c : Char) (rest : List Char) :
    scanString (escape c ++ rest) = (scanString rest).map fun p => (c :: p.1, p.2) := by
  unfold escape
  cases hfind : shortEscapes.find? fun e => e.1 = c with
  | some e =>
      have hc : e.1 = c := by simpa using List.find?_some hfind
      subst hc
      exact scanString_short (List.mem_of_find?_eq_some hfind) rest
  | none =>
      have hno : ∀ e ∈ shortEscapes, e.1 ≠ c := by
        intro e he
        simpa using List.find?_eq_none.1 hfind e he
      have hquote : c ≠ '"' := fun h => hno ('"', '"') (by decide) h.symm
      have hback : c ≠ '\\' := fun h => hno ('\\', '\\') (by decide) h.symm
      by_cases hprint : ' ' ≤ c ∧ c ≤ '~'
      · simp only [hprint, and_self, if_true]
        exact scanString_plain hprint.1 hquote hback rest
      · simp only [hprint, if_false]
        by_cases hlt : c.toNat < 0x10000
        · simp only [hlt, if_true]
          exact scanString_unicode hlt rest
        · simp only [hlt, if_false]
          rcases paired_surrogates (Nat.le_of_not_lt hlt) with ⟨hhigh, hlow, hpair⟩
          exact scanString_pair hhigh hlow hpair rest

/-- A string is read back up to its closing quote. -/
theorem scanString_dumps (s : List Char) (rest : List Char) :
    scanString (s.flatMap escape ++ '"' :: rest) = some (s, rest) := by
  induction s with
  | nil => rw [List.flatMap_nil, List.nil_append, scanString]
  | cons c s ih =>
      rw [List.flatMap_cons, List.append_assoc, scanString_escape, ih]
      rfl

/-! ## Numbers are read back -/

/-- What follows a number does not begin with a digit. -/
def Stops (rest : List Char) : Prop := ∀ c ∈ rest.head?, c.isDigit = false

/-- A positive number is written without leading zeros, which `json.loads` refuses. -/
theorem head_toDigits_ne_zero {n : Nat} (h : 0 < n) : (Nat.toDigits 10 n).head? ≠ some '0' := by
  induction n using Nat.strongRecOn with
  | ind n ih =>
      rw [Nat.toDigits_eq_if (by decide)]
      split
      · rename_i hlt
        have hdigit : ∀ m < 10, 0 < m → Nat.digitChar m ≠ '0' := by decide
        simpa using hdigit n hlt h
      · -- the first digit is that of the quotient
        rename_i hge
        have hquot := ih (n / 10) (by omega) (by omega)
        rw [List.head?_append]
        cases hhead : (Nat.toDigits 10 (n / 10)).head? with
        | none => exact absurd (List.head?_eq_none_iff.1 hhead) Nat.toDigits_ne_nil
        | some c => rwa [hhead] at hquot

/-- A number is read back where no digit follows it. -/
theorem scanNat_toDigits (n : Nat) {rest : List Char} (hrest : Stops rest) :
    scanNat (Nat.toDigits 10 n ++ rest) = some (n, rest) := by
  rcases Nat.eq_zero_or_pos n with rfl | hpos
  · rw [Nat.toDigits_zero]
    rfl
  · have hdigits : ∀ c ∈ Nat.toDigits 10 n, c.isDigit = true := fun c hc =>
      Nat.isDigit_of_mem_toDigits (by decide) (by decide) hc
    have hhead := head_toDigits_ne_zero hpos
    -- the digits end where the rest begins
    have hstop : rest.takeWhile Char.isDigit = [] ∧ rest.dropWhile Char.isDigit = rest := by
      cases rest with
      | nil => exact ⟨rfl, rfl⟩
      | cons c rest =>
          have hc := hrest c rfl
          simp [hc]
    have hread : Nat.ofDigitChars 10 ((Nat.toDigits 10 n ++ rest).takeWhile Char.isDigit) 0 = n ∧
        (Nat.toDigits 10 n ++ rest).dropWhile Char.isDigit = rest := by
      rw [List.takeWhile_append_of_pos hdigits, List.dropWhile_append_of_pos hdigits, hstop.1,
        hstop.2, List.append_nil]
      exact ⟨Nat.ofDigitChars_ten_toDigits, rfl⟩
    cases hds : Nat.toDigits 10 n with
    | nil => exact absurd hds Nat.toDigits_ne_nil
    | cons d ds =>
        rw [hds] at hhead hdigits hread
        have hzero : d ≠ '0' := fun h => hhead (by rw [h]; rfl)
        rw [List.cons_append, scanNat, if_pos (hdigits d List.mem_cons_self)]
        · rw [← List.cons_append, hread.1, hread.2]
        · exact hzero

/-- A number begins with a dash or a digit. -/
theorem dumpsInt_head (n : Int) :
    ∃ c cs, dumpsInt n = c :: cs ∧ (c = '-' ∨ c.isDigit = true) := by
  unfold dumpsInt
  split
  · exact ⟨_, _, rfl, Or.inl rfl⟩
  · cases hds : Nat.toDigits 10 n.natAbs with
    | nil => exact absurd hds Nat.toDigits_ne_nil
    | cons d ds =>
        refine ⟨d, ds, rfl, Or.inr ?_⟩
        exact Nat.isDigit_of_mem_toDigits (b := 10) (n := n.natAbs) (by decide) (by decide)
          (by rw [hds]; exact List.mem_cons_self)

theorem scanInt_dumps (n : Int) {rest : List Char} (hrest : Stops rest) :
    scanInt (dumpsInt n ++ rest) = some (n, rest) := by
  unfold dumpsInt
  split
  · rename_i hneg
    rw [List.cons_append, scanInt, scanNat_toDigits _ hrest]
    have habs : -(n.natAbs : Int) = n := by omega
    exact congrArg (fun m => some (m, rest)) habs
  · rename_i hpos
    have habs : (n.natAbs : Int) = n := by omega
    rw [scanInt, scanNat_toDigits _ hrest]
    · simp [habs]
    · -- no digit is a dash
      intro cs hcs
      cases hds : Nat.toDigits 10 n.natAbs with
      | nil => exact Nat.toDigits_ne_nil hds
      | cons d ds =>
          have hd := Nat.isDigit_of_mem_toDigits (b := 10) (n := n.natAbs) (c := d) (by decide)
            (by decide) (by rw [hds]; exact List.mem_cons_self)
          rw [hds] at hcs
          cases hcs
          cases hd

/-! ## Values are read back -/

mutual

/-- No object has two members of one name. -/
def Wf : Value → Prop
  | .array items => WfItems items
  | .object members => (members.map Prod.fst).Nodup ∧ WfMembers members
  | .null | .bool _ | .int _ | .str _ => True

def WfItems : List Value → Prop
  | [] => True
  | v :: vs => Wf v ∧ WfItems vs

def WfMembers : List (String × Value) → Prop
  | [] => True
  | (_, v) :: ms => Wf v ∧ WfMembers ms

end

/-- Members with different keys all stay, in their order. -/
theorem dictOf_eq {pairs : List (String × Value)} (h : (pairs.map Prod.fst).Nodup) :
    dictOf pairs = pairs := by
  -- over the members still to be set
  have hfold : ∀ (pairs members : List (String × Value)),
      ((members ++ pairs).map Prod.fst).Nodup →
      pairs.foldl (fun members m => setMember members m.1 m.2) members = members ++ pairs := by
    intro pairs
    induction pairs with
    | nil => simp
    | cons m pairs ih =>
        intro members hnodup
        have hnew : m.1 ∉ members.map Prod.fst := by
          rw [List.map_append, List.nodup_append] at hnodup
          intro hmem
          exact hnodup.2.2 _ hmem _ List.mem_cons_self rfl
        rw [List.foldl_cons, setMember, if_neg hnew, ih _ (by simpa using hnodup),
          List.append_assoc]
        rfl
  exact hfold pairs [] h

/-- No text begins with white space or with a closing bracket. -/
theorem dumps_head (v : Value) : ∃ c cs, dumps v = c :: cs ∧ isSpace c = false ∧ c ≠ ']' := by
  have hdigit : ∀ c : Char, c.isDigit = true → isSpace c = false ∧ c ≠ ']' := by
    intro c hc
    constructor
    · by_contra hspace
      simp only [Bool.not_eq_false, isSpace, decide_eq_true_eq] at hspace
      rcases hspace with rfl | rfl | rfl | rfl <;> cases hc
    · intro h
      rw [h] at hc
      cases hc
  cases v with
  | null => exact ⟨_, _, by rw [dumps], rfl, by decide⟩
  | bool b =>
      cases b with
      | true => exact ⟨_, _, by rw [dumps], rfl, by decide⟩
      | false => exact ⟨_, _, by rw [dumps], rfl, by decide⟩
  | int n =>
      rcases dumpsInt_head n with ⟨c, cs, hcs, rfl | hc⟩
      · exact ⟨_, cs, by rw [dumps, hcs], rfl, by decide⟩
      · exact ⟨c, cs, by rw [dumps, hcs], hdigit c hc⟩
  | str s => exact ⟨_, _, by rw [dumps, dumpsString], rfl, by decide⟩
  | array items =>
      cases items with
      | nil => exact ⟨_, _, by rw [dumps], rfl, by decide⟩
      | cons v vs => exact ⟨_, _, by rw [dumps], rfl, by decide⟩
  | object members =>
      cases members with
      | nil => exact ⟨_, _, by rw [dumps], rfl, by decide⟩
      | cons m ms => exact ⟨_, _, by rw [dumps], rfl, by decide⟩

theorem skipSpace_dumps (v : Value) (rest : List Char) :
    skipSpace (dumps v ++ rest) = dumps v ++ rest := by
  rcases dumps_head v with ⟨c, cs, hcs, hspace, _⟩
  simp [hcs, skipSpace, hspace]

/-- No other kind of value begins like a number. -/
theorem scanValue_int (fuel : Nat) (n : Int) {rest : List Char} (hrest : Stops rest) :
    scanValue (fuel + 1) (dumpsInt n ++ rest) = some (.int n, rest) := by
  rcases dumpsInt_head n with ⟨c, cs, hcs, hc⟩
  -- neither a dash nor a digit begins a value of another kind
  have hother : ∀ d ∈ ['"', '[', '\x7b', 'n', 't', 'f'], c ≠ d := by
    have hkinds : ∀ d ∈ ['"', '[', '\x7b', 'n', 't', 'f'], d ≠ '-' ∧ d.isDigit = false := by
      intro d hd
      simp only [List.mem_cons, List.not_mem_nil, or_false] at hd
      rcases hd with rfl | rfl | rfl | rfl | rfl | rfl
      all_goals decide
    intro d hd heq
    rw [← heq] at hd
    rcases hc with hc | hc
    · exact (hkinds c hd).1 hc
    · rw [(hkinds c hd).2] at hc
      cases hc
  have hfirst : ∀ d cs', dumpsInt n ++ rest = d :: cs' → d = c := by
    intro d cs' h
    rw [hcs] at h
    cases h
    rfl
  rw [scanValue, scanInt_dumps n hrest]
  · rfl
  · intro cs' h
    exact hother _ (by decide) (hfirst _ _ h).symm
  · intro cs' h
    exact hother _ (by decide) (hfirst _ _ h).symm
  · intro cs' h
    exact hother _ (by decide) (hfirst _ _ h).symm
  · intro cs' h
    exact hother _ (by decide) (hfirst _ _ h).symm
  · intro cs' h
    exact hother _ (by decide) (hfirst _ _ h).symm
  · intro cs' h
    exact hother _ (by decide) (hfirst _ _ h).symm

theorem stops_cons {c : Char} (h : c.isDigit = false) (rest : List Char) : Stops (c :: rest) := by
  intro d hd
  cases hd
  exact h

/-- What follows an item is no digit. -/
theorem stops_items (vs : List Value) (rest : List Char) : Stops (dumpsItems vs ++ rest) := by
  cases vs with
  | nil =>
      rw [dumpsItems]
      exact stops_cons rfl _
  | cons v vs =>
      rw [dumpsItems]
      exact stops_cons rfl _

/-- After a member comes a comma or the closing brace, so a number ends there. -/
theorem stops_members (ms : List (String × Value)) (rest : List Char) :
    Stops (dumpsMembers ms ++ rest) := by
  cases ms with
  | nil =>
      rw [dumpsMembers]
      exact stops_cons rfl _
  | cons m ms =>
      rw [dumpsMembers]
      exact stops_cons rfl _

/-- What is read back with this much fuel: values, the items of an array and the members of
an object. -/
structure ReadsBack (fuel : Nat) : Prop where
  value : ∀ v rest, (dumps v).length ≤ fuel → Wf v → Stops rest →
    scanValue fuel (dumps v ++ rest) = some (v, rest)
  items : ∀ v vs rest, (dumps v ++ dumpsItems vs).length ≤ fuel → Wf v → WfItems vs →
    scanItems fuel (dumps v ++ (dumpsItems vs ++ rest)) = some (v :: vs, rest)
  members : ∀ k v ms rest, (dumpsString k ++ ([':', ' '] ++ (dumps v ++ dumpsMembers ms))).length ≤
    fuel → Wf v → WfMembers ms →
    scanMembers fuel (dumpsString k ++ ([':', ' '] ++ (dumps v ++ (dumpsMembers ms ++ rest)))) =
      some ((k, v) :: ms, rest)

/-- A value, when its items and members are read back with one unit of fuel less. -/
theorem ReadsBack.succ_value {fuel : Nat} (h : ReadsBack fuel) (v : Value) {rest : List Char}
    (hfuel : (dumps v).length ≤ fuel + 1) (hwf : Wf v) (hrest : Stops rest) :
    scanValue (fuel + 1) (dumps v ++ rest) = some (v, rest) := by
  cases v with
  | null =>
      rw [dumps]
      rfl
  | bool b =>
      cases b with
      | true =>
          rw [dumps]
          rfl
      | false =>
          rw [dumps]
          rfl
  | int n =>
      rw [dumps]
      exact scanValue_int fuel n hrest
  | str s =>
      rw [dumps, dumpsString, List.cons_append, List.append_assoc, scanValue]
      rw [List.singleton_append, scanString_dumps]
      simp only [Option.map_some, String.ofList_toList]
  | array items =>
      cases items with
      | nil =>
          rw [dumps]
          rfl
      | cons v vs =>
          rw [dumps] at hfuel ⊢
          have hread := h.items v vs rest (Nat.le_of_succ_le_succ hfuel) hwf.1 hwf.2
          rw [List.cons_append, List.append_assoc, scanValue, skipSpace_dumps]
          split
          · -- an item does not begin with the closing bracket
            rename_i hcs
            rcases dumps_head v with ⟨c, cs, hcs', _, hbracket⟩
            rw [hcs'] at hcs
            cases hcs
            exact absurd rfl hbracket
          · rw [hread]
            rfl
  | object members =>
      cases members with
      | nil =>
          rw [dumps]
          rfl
      | cons m ms =>
          rcases m with ⟨k, v⟩
          rw [dumps] at hfuel ⊢
          have hread := h.members k v ms rest (Nat.le_of_succ_le_succ hfuel) hwf.2.1 hwf.2.2
          rw [List.cons_append, List.append_assoc, List.append_assoc, List.append_assoc, scanValue]
          have hskip : ∀ cs, skipSpace (dumpsString k ++ cs) = dumpsString k ++ cs := fun cs => rfl
          rw [hskip]
          split
          · rename_i hcs
            cases hcs
          · rw [hread]
            simp only [Option.map_some, dictOf_eq hwf.1]

theorem ReadsBack.succ_items {fuel : Nat} (h : ReadsBack fuel) (v : Value) (vs : List Value)
    (rest : List Char) (hfuel : (dumps v ++ dumpsItems vs).length ≤ fuel + 1) (hv : Wf v)
    (hvs : WfItems vs) :
    scanItems (fuel + 1) (dumps v ++ (dumpsItems vs ++ rest)) = some (v :: vs, rest) := by
  have hvalue : scanValue fuel (dumps v ++ (dumpsItems vs ++ rest)) =
      some (v, dumpsItems vs ++ rest) := by
    refine h.value v _ ?_ hv (stops_items vs rest)
    have hpos : 0 < (dumpsItems vs).length := by cases vs <;> simp [dumpsItems]
    rw [List.length_append] at hfuel
    omega
  rw [scanItems, hvalue]
  cases vs with
  | nil =>
      rw [dumpsItems]
      rfl
  | cons v' vs =>
      rw [dumpsItems] at hfuel ⊢
      have hspace : skipSpace ([',', ' '] ++ (dumps v' ++ dumpsItems vs) ++ rest) =
          ',' :: ' ' :: (dumps v' ++ (dumpsItems vs ++ rest)) := by
        rw [List.append_assoc, List.append_assoc]
        rfl
      have hnext : skipSpace (' ' :: (dumps v' ++ (dumpsItems vs ++ rest))) =
          dumps v' ++ (dumpsItems vs ++ rest) := skipSpace_dumps v' _
      have hread := h.items v' vs rest (by
        simp only [List.length_append, List.length_cons] at hfuel ⊢
        omega) hvs.1 hvs.2
      simp only [Option.bind_eq_bind, Option.bind_some, hspace, hnext, hread, Option.map_some]

theorem ReadsBack.succ_members {fuel : Nat} (h : ReadsBack fuel) (k : String) (v : Value)
    (ms : List (String × Value)) (rest : List Char)
    (hfuel : (dumpsString k ++ ([':', ' '] ++ (dumps v ++ dumpsMembers ms))).length ≤ fuel + 1)
    (hv : Wf v) (hms : WfMembers ms) :
    scanMembers (fuel + 1)
      (dumpsString k ++ ([':', ' '] ++ (dumps v ++ (dumpsMembers ms ++ rest)))) =
        some ((k, v) :: ms, rest) := by
  have hvalue : scanValue fuel (dumps v ++ (dumpsMembers ms ++ rest)) =
      some (v, dumpsMembers ms ++ rest) := by
    refine h.value v _ ?_ hv (stops_members ms rest)
    simp only [List.length_append, List.length_cons] at hfuel
    omega
  have hname : ∀ cs, scanString (k.toList.flatMap escape ++ ['"'] ++ cs) = some (k.toList, cs) := by
    intro cs
    rw [List.append_assoc]
    exact scanString_dumps k.toList cs
  have hcolon : ∀ cs, skipSpace ([':', ' '] ++ cs) = ':' :: ' ' :: cs := fun cs => rfl
  have hafter : skipSpace (' ' :: (dumps v ++ (dumpsMembers ms ++ rest))) =
      dumps v ++ (dumpsMembers ms ++ rest) := skipSpace_dumps v _
  rw [dumpsString, List.cons_append, scanMembers, hname]
  simp only [Option.bind_eq_bind, Option.bind_some, hcolon, hafter, hvalue, String.ofList_toList]
  cases ms with
  | nil =>
      rw [dumpsMembers]
      rfl
  | cons m ms =>
      rcases m with ⟨k', v'⟩
      rw [dumpsMembers] at hfuel ⊢
      have hcomma : skipSpace ([',', ' '] ++ (dumpsString k' ++ ([':', ' '] ++
          (dumps v' ++ dumpsMembers ms))) ++ rest) = ',' :: ' ' :: (dumpsString k' ++
          ([':', ' '] ++ (dumps v' ++ (dumpsMembers ms ++ rest)))) := by
        simp only [List.append_assoc]
        rfl
      have hnext : ∀ cs, skipSpace (' ' :: (dumpsString k' ++ cs)) = dumpsString k' ++ cs :=
        fun cs => rfl
      have hread := h.members k' v' ms rest (by
        simp only [List.length_append, List.length_cons] at hfuel ⊢
        omega) hms.1 hms.2
      simp only [hcomma, hnext, hread, Option.map_some]

/-- Fuel as long as the text suffices. -/
theorem readsBack (fuel : Nat) : ReadsBack fuel := by
  induction fuel with
  | zero =>
      have hvalue : ∀ v, ¬ (dumps v).length ≤ 0 := by
        intro v
        rcases dumps_head v with ⟨c, cs, hcs, _, _⟩
        simp [hcs]
      refine ⟨fun v _ hfuel => absurd hfuel (hvalue v), fun v vs _ hfuel => ?_,
        fun k v ms _ hfuel => ?_⟩
      · rw [List.length_append] at hfuel
        exact absurd (by omega) (hvalue v)
      · simp [dumpsString] at hfuel
  | succ fuel ih =>
      exact ⟨fun v rest hfuel hwf hrest => ih.succ_value v hfuel hwf hrest, ih.succ_items,
        ih.succ_members⟩

/-- What is dumped is loaded again. -/
theorem loads_dumps {v : Value} (h : Wf v) : loads (dumps v) = some v := by
  have hskip : skipSpace (dumps v) = dumps v := by
    simpa using skipSpace_dumps v []
  have hread : scanValue ((dumps v).length + 1) (dumps v) = some (v, []) := by
    have hstops : Stops [] := by
      intro c hc
      cases hc
    simpa using (readsBack _).value v [] (Nat.le_succ _) h hstops
  rw [loads, hskip, hread]
  rfl

theorem dumps_ne_nil (v : Value) : dumps v ≠ [] := by
  rcases dumps_head v with ⟨c, cs, hcs, _, _⟩
  simp [hcs]

end JsonText
