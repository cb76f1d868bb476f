import Mathlib.Data.List.TakeWhile

/-!
# Data literals (`prog/encoding.go`)

Data are written as hex digits in double quotes, or, if they are text, in single quotes with what
is not printable escaped. A parser is what is left of its line, and what goes wrong first is what
the source keeps in `p.e`.
-/

namespace KConfuzz.DataLiteral

open List

def quote : UInt8 := 0x27
def doubleQuote : UInt8 := 0x22
def backslash : UInt8 := 0x5c
def dollar : UInt8 := 0x24

/-! ## Writing -/

def isPrintable (v : UInt8) : Bool := 0x20 ≤ v ∧ v < 0x7f

/-- It is called for halves of bytes, so it does not panic. -/
def toHexChar (v : UInt8) : UInt8 := if v < 10 then 0x30 + v else 0x61 + v - 10

def byteToHex (v : UInt8) : UInt8 × UInt8 := (toHexChar (v &&& 0xf), toHexChar (v >>> 4))

def hexEscape (v : UInt8) : List UInt8 :=
  let (lo, hi) := byteToHex v
  [backslash, 0x78, hi, lo]

/-- The bytes with an escape of their own, and what stands behind the backslash for them. -/
def escapes : List (UInt8 × UInt8) :=
  [(0x07, 0x61), (0x08, 0x62), (0x0c, 0x66), (0x0a, 0x6e), (0x0d, 0x72), (0x09, 0x74), (0x0b, 0x76),
    (quote, quote), (doubleQuote, doubleQuote), (backslash, backslash)]

def encodeByte (readable cstr : Bool) (v : UInt8) : List UInt8 :=
  if !readable then hexEscape v
  else match escapes.lookup v with
    | some c => [backslash, c]
    | none =>
      if isPrintable v then [v]
      else if cstr then
        [backslash, ((v >>> 6) &&& 0x7) + 0x30, ((v >>> 3) &&& 0x7) + 0x30, (v &&& 0x7) + 0x30]
      else hexEscape v

def encodeData (data : List UInt8) (readable cstr : Bool) : List UInt8 :=
  data.flatMap (encodeByte readable cstr)

def isReadableData (data : List UInt8) : Bool :=
  data.length ≠ 0 && data.all fun v =>
    isPrintable v || [0, 0x07, 0x08, 0x0c, 0x0a, 0x0d, 0x09, 0x0b].contains v

/-- `hex.EncodeToString` -/
def encodeToString (data : List UInt8) : List UInt8 :=
  data.flatMap fun v => [(byteToHex v).2, (byteToHex v).1]

def serializeData (data : List UInt8) (readable : Bool) : List UInt8 :=
  if readable = false ∧ isReadableData data = false then
    doubleQuote :: encodeToString data ++ [doubleQuote]
  else quote :: encodeData data true false ++ [quote]

/-! ## Reading -/

inductive ParseError where
  | unexpectedEof
  | wantGotEof (ch : UInt8)
  | want (ch got : UInt8)
  | noIdentifier
  | noQuote
  | invalidHex (hi lo : UInt8)
  | invalidEscape (v : UInt8)
  | badValue (val : List UInt8)
  | corrupt (err : String)
deriving DecidableEq

def char : List UInt8 → Except ParseError UInt8
  | [] => .error .unexpectedEof
  | c :: _ => .ok c

def isWs (c : UInt8) : Bool := c = 0x20 ∨ c = 0x09

def skipWs (s : List UInt8) : List UInt8 := s.dropWhile isWs

/-- `Parse` -/
def expect (ch : UInt8) : List UInt8 → Except ParseError (List UInt8)
  | [] => .error (.wantGotEof ch)
  | c :: s => if c ≠ ch then .error (.want ch c) else .ok (skipWs s)

def isIdentChar (c : UInt8) : Bool :=
  0x61 ≤ c ∧ c ≤ 0x7a ∨ 0x41 ≤ c ∧ c ≤ 0x5a ∨ 0x30 ≤ c ∧ c ≤ 0x39 ∨ c = 0x5f ∨ c = dollar

def ident (s : List UInt8) : Except ParseError (List UInt8 × List UInt8) :=
  if s.takeWhile isIdentChar = [] then .error .noIdentifier
  else .ok (s.takeWhile isIdentChar, skipWs (s.dropWhile isIdentChar))

def fromHexChar (v : UInt8) : Option UInt8 :=
  if 0x30 ≤ v ∧ v ≤ 0x39 then some (v - 0x30)
  else if 0x61 ≤ v ∧ v ≤ 0x66 then some (v - 0x61 + 10)
  else none

def hexToByte (lo hi : UInt8) : Option UInt8 := do return (← fromHexChar hi) <<< 4 + (← fromHexChar lo)

/-- `hex.DecodeString`, which takes upper case as well. -/
def decodeString : List UInt8 → Option (List UInt8)
  | [] => some []
  | [_] => none
  | hi :: lo :: s => do
    let lower c := if 0x41 ≤ c ∧ c ≤ 0x46 then c + 0x20 else c
    return (← hexToByte (lower lo) (lower hi)) :: (← decodeString s)

/-- The loop over text, up to a quote or a zero. -/
def decodeText : List UInt8 → Except ParseError (List UInt8 × List UInt8)
  | [] => .error .unexpectedEof
  | v :: s =>
    let append b := Except.map fun (data, s) => (b :: data, s)
    if v = quote ∨ v = 0 then .ok ([], v :: s)
    else if v ≠ backslash then append v (decodeText s)
    else match s with
      | [] => .error .unexpectedEof
      | v :: s =>
        if v = 0x78 then
          match s with
          | hi :: lo :: s =>
            match hexToByte lo hi with
            | none => .error (.invalidHex hi lo)
            | some b => append b (decodeText s)
          | _ => .error .unexpectedEof
        else
          match (escapes.map Prod.swap).lookup v with
          | none => .error (.invalidEscape v)
          | some b => append b (decodeText s)

/-- What is behind an opening double quote: the data, whether they were in Base64, and what is left
of the line. -/
def deserializeHex (decodeB64 : List UInt8 → Except String (List UInt8)) (s : List UInt8) :
    Except ParseError (List UInt8 × Bool × List UInt8) := do
  if (← char s) = dollar then
    let s := s.drop 1
    let rest ← expect doubleQuote (s.dropWhile (· ≠ doubleQuote))
    match decodeB64 (s.takeWhile (· ≠ doubleQuote)) with
    | .error err => .error (.corrupt err)
    | .ok decoded => return (decoded, true, rest)
  else
    let (val, s) ← if (← char s) ≠ doubleQuote then ident s else pure ([], s)
    let s ← expect doubleQuote s
    match decodeString val with
    | none => .error (.badValue val)
    | some data => return (data, false, s)

def deserializeData (decodeB64 : List UInt8 → Except String (List UInt8)) (s : List UInt8) :
    Except ParseError (List UInt8 × Bool × List UInt8) := do
  let c ← char s
  if c = doubleQuote then
    let s ← expect doubleQuote s
    deserializeHex decodeB64 s
  else if c ≠ quote then .error .noQuote
  else
    let (data, s) ← decodeText (s.drop 1)
    let s ← expect quote s
    return (data, false, s)

/-! ## Round trip -/

variable {data s rest : List UInt8}

/-- What holds for each of the bytes holds for all of them. -/
lemma forall_byte {P : UInt8 → Prop} (h : ∀ n : Fin 256, P (UInt8.ofFin n)) (v : UInt8) : P v :=
  h v.toFin

/-- The text of a byte is read as one. -/
lemma decodeText_encodeByte (v : UInt8) (s : List UInt8) :
    decodeText (encodeByte true false v ++ s) =
      (decodeText s).map fun (data, s) => (v :: data, s) := by
  have hhex : ∀ v, hexToByte (byteToHex v).1 (byteToHex v).2 = some v :=
    forall_byte (by decide +kernel)
  have hescape : ∀ v, ∀ c ∈ escapes.lookup v, c ≠ 0x78 ∧ (escapes.map Prod.swap).lookup c = some v :=
    forall_byte (by decide +kernel)
  have hplain : ∀ v, escapes.lookup v = none → isPrintable v = true →
      ¬ (v = quote ∨ v = 0) ∧ v ≠ backslash := forall_byte (by decide +kernel)
  have hstart : ¬ (backslash = quote ∨ backslash = 0) := by decide
  unfold encodeByte
  cases hc : escapes.lookup v with
  | some c =>
    obtain ⟨hx, hc⟩ := hescape v c hc
    rw [decodeText.eq_def]
    simp [hstart, hx, hc]
  | none =>
    cases hprint : isPrintable v with
    | true =>
      obtain ⟨hend, hback⟩ := hplain v hc hprint
      rw [decodeText.eq_def]
      simp [hend, hback]
    | false =>
      rw [decodeText.eq_def]
      simp [hexEscape, hstart, hhex]

lemma decodeText_encodeData (data rest : List UInt8) :
    decodeText (encodeData data true false ++ quote :: rest) = .ok (data, quote :: rest) := by
  induction data with
  | nil =>
    unfold decodeText
    rfl
  | cons v data ih =>
    rw [encodeData, flatMap_cons, append_assoc, decodeText_encodeByte, ← encodeData, ih]
    rfl

lemma isIdentChar_encodeToString : ∀ c ∈ encodeToString data, isIdentChar c ∧ c ≠ dollar := by
  have hdigit : ∀ v, (isIdentChar (byteToHex v).2 ∧ (byteToHex v).2 ≠ dollar) ∧
      isIdentChar (byteToHex v).1 ∧ (byteToHex v).1 ≠ dollar := forall_byte (by decide +kernel)
  intro c hc
  obtain ⟨v, -, hv⟩ := mem_flatMap.mp hc
  simp only [mem_cons, not_mem_nil, or_false] at hv
  rcases hv with rfl | rfl
  · exact (hdigit v).1
  · exact (hdigit v).2

lemma decodeString_encodeToString (data : List UInt8) :
    decodeString (encodeToString data) = some data := by
  have hlower : ∀ v, ¬ (0x41 ≤ (byteToHex v).1 ∧ (byteToHex v).1 ≤ 0x46) ∧
      ¬ (0x41 ≤ (byteToHex v).2 ∧ (byteToHex v).2 ≤ 0x46) ∧
      hexToByte (byteToHex v).1 (byteToHex v).2 = some v := forall_byte (by decide +kernel)
  induction data with
  | nil => rfl
  | cons v data ih =>
    obtain ⟨hlo, hhi, hbyte⟩ := hlower v
    rw [encodeToString, flatMap_cons]
    show decodeString (_ :: _ :: encodeToString data) = _
    simp only [decodeString, ih, if_neg hlo, if_neg hhi, hbyte]
    rfl

lemma skipWs_eq_self (h : ∀ c ∈ s.head?, isWs c = false) : skipWs s = s := by
  cases s with
  | nil => rfl
  | cons c s => exact dropWhile_cons_of_neg (by simp [h c rfl])

lemma expect_cons (ch : UInt8) (h : ∀ c ∈ s.head?, isWs c = false) :
    expect ch (ch :: s) = .ok s := by
  rw [expect, if_neg (by simp), skipWs_eq_self h]

variable {decodeB64 : List UInt8 → Except String (List UInt8)}

/-- A hex literal is read up to its quote. -/
lemma deserializeHex_spec {hex : List UInt8} (hident : ∀ c ∈ hex, isIdentChar c ∧ c ≠ dollar)
    (hdecode : decodeString hex = some data) (hrest : ∀ c ∈ rest.head?, isWs c = false) :
    deserializeHex decodeB64 (hex ++ doubleQuote :: rest) = .ok (data, false, rest) := by
  have hclose := expect_cons doubleQuote hrest
  cases hex with
  | nil =>
    cases hdecode
    have hdollar : doubleQuote ≠ dollar := by decide
    simp only [deserializeHex, nil_append, char, bind, Except.bind, if_neg hdollar, ne_eq,
      not_true_eq_false, if_false, pure, Except.pure, hclose, decodeString]
  | cons c hex =>
    have hchars : ∀ c' ∈ c :: hex, isIdentChar c' = true := fun c' hc' => (hident c' hc').1
    have htake : (c :: hex ++ doubleQuote :: rest).takeWhile isIdentChar = c :: hex := by
      rw [takeWhile_append_of_pos hchars]
      exact append_nil _
    have hdrop : (c :: hex ++ doubleQuote :: rest).dropWhile isIdentChar = doubleQuote :: rest := by
      rw [dropWhile_append_of_pos hchars]
      rfl
    have hval : ident (c :: hex ++ doubleQuote :: rest) = .ok (c :: hex, doubleQuote :: rest) := by
      rw [ident, htake, hdrop, if_neg (by simp)]
      rfl
    have hquote : c ≠ doubleQuote := by
      rintro rfl
      exact absurd (hchars _ mem_cons_self) (by decide)
    have hchar : char (c :: hex ++ doubleQuote :: rest) = .ok c := rfl
    simp only [deserializeHex, hchar, bind, Except.bind, if_neg (hident c mem_cons_self).2,
      if_pos hquote, hval, hclose, hdecode]
    rfl

/-- Data are read as they were written, up to the closing quote, behind which there is no blank. -/
theorem deserializeData_serializeData (decodeB64 : List UInt8 → Except String (List UInt8))
    (data : List UInt8) (readable : Bool) (hrest : ∀ c ∈ rest.head?, isWs c = false) :
    deserializeData decodeB64 (serializeData data readable ++ rest) = .ok (data, false, rest) := by
  unfold serializeData
  split_ifs
  · have hident := @isIdentChar_encodeToString data
    have hhex := @deserializeHex_spec _ _ decodeB64 _ hident (decodeString_encodeToString data) hrest
    have hopen : ∀ c ∈ (encodeToString data ++ doubleQuote :: rest).head?, isWs c = false := by
      have hws : ∀ c, isIdentChar c = true → isWs c = false := forall_byte (by decide +kernel)
      intro c hc
      cases hhead : encodeToString data with
      | nil =>
        rw [hhead] at hc
        cases hc
        rfl
      | cons d hex =>
        rw [hhead] at hc hident
        cases hc
        exact hws c (hident c mem_cons_self).1
    have hquote := expect_cons doubleQuote hopen
    rw [cons_append, cons_append, append_assoc, singleton_append]
    simp only [deserializeData, char, bind, Except.bind, if_true, hquote, hhex]
  · have hclose := expect_cons quote hrest
    have hquote : quote ≠ doubleQuote := by decide
    rw [cons_append, cons_append, append_assoc, singleton_append]
    simp only [deserializeData, char, bind, Except.bind, if_neg hquote, ne_eq, not_true_eq_false,
      if_false, drop_succ_cons, drop_zero, decodeText_encodeData, hclose]
    rfl

/-- A quote and a byte that is not printable. -/
theorem deserializeData_serializeData_escapes :
    deserializeData (fun _ => .error "") (serializeData [0x27, 0xff] true ++ [0x2c]) =
      .ok ([0x27, 0xff], false, [0x2c]) := by
  apply deserializeData_serializeData
  rintro c ⟨⟩
  rfl

end KConfuzz.DataLiteral
