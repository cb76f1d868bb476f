import KConfuzz.Prog.Args
import KConfuzz.Lib.ExceptFold
import KConfuzz.Lib.Rounding

/-!
# Signal without coverage (`prog/analysis.go`)

Where the kernel has no coverage, signal is made up from the numbers and the results of the calls.
A signal packs its type, the number of the call and one more number; here an `int` of the source is
the word with its bits. The flags of a call get at most four bits from each of its arguments
(`extractArgSignal_spec`), so they fit in the bits of the last number.
-/

namespace KConfuzz

open Lib.ExceptFold

def fallbackSignalErrno : UInt64 := 0
def fallbackSignalErrnoBlocked : UInt64 := 1
def fallbackSignalCtor : UInt64 := 2
def fallbackSignalFlags : UInt64 := 3

inductive SignalPanic where
  | badType (typ : UInt64)
  | tooManySyscalls (id : UInt64)
deriving DecidableEq, Repr

/-! ## Packing -/

/-- The mask as a word. -/
def callMask : UInt64 := UInt64.ofNat fallbackCallMask

def encodeFallbackSignal (typ id aux : UInt64) : Except SignalPanic UInt64 := do
  failIf (id &&& ~~~callMask ≠ 0) (.tooManySyscalls id)
  failIf (typ &&& ~~~7 ≠ 0) (.badType typ)
  return typ ||| (id &&& callMask) <<< 3 ||| aux <<< 24

def decodeFallbackSignal (s : UInt64) : UInt64 × UInt64 × UInt64 :=
  (s &&& 7, s >>> 3 &&& callMask, s >>> 24)

/-- `DecodeFallbackSignal`: the call and the errno, which is 0 for a signal that has none. -/
def decodeFallbackErrno (s : UInt64) : Except SignalPanic (UInt64 × UInt64) :=
  let (typ, id, aux) := decodeFallbackSignal s
  if typ = fallbackSignalErrno ∨ typ = fallbackSignalErrnoBlocked then .ok (id, aux)
  else if typ = fallbackSignalCtor ∨ typ = fallbackSignalFlags then .ok (id, 0)
  else .error (.badType typ)

/-- The numbers that have room in a signal. -/
structure InSignal (typ id aux : UInt64) : Prop where
  typ_lt : typ.toNat < 2 ^ 3
  id_lt : id.toNat < 2 ^ 21
  aux_lt : aux.toNat < 2 ^ 40

variable {typ id aux : UInt64}

/-- A word has only bits of a mask of low bits. -/
lemma and_not_mask {x mask : UInt64} {k : ℕ} (hmask : mask.toNat = 2 ^ k - 1)
    (hx : x.toNat < 2 ^ k) : x &&& ~~~mask = 0 ∧ x &&& mask = x := by
  have hkeep : x &&& mask = x := by
    rw [← UInt64.toNat_inj, UInt64.toNat_and, hmask, Nat.and_two_pow_sub_one_eq_mod,
      Nat.mod_eq_of_lt hx]
  refine ⟨?_, hkeep⟩
  rw [Lib.Rounding.and_not_eq_sub, hkeep, UInt64.sub_self]

/-- The three numbers have bits of their own. -/
lemma toNat_packed (h : InSignal typ id aux) :
    (typ ||| id <<< 3 ||| aux <<< 24).toNat =
      typ.toNat + 2 ^ 3 * id.toNat + 2 ^ 24 * aux.toNat := by
  obtain ⟨htyp, hid, haux⟩ := h
  have hlow : (typ ||| id <<< 3).toNat = 2 ^ 3 * id.toNat + typ.toNat := by
    rw [Nat.two_pow_add_eq_or_of_lt htyp, Nat.or_comm, UInt64.toNat_or, UInt64.toNat_shiftLeft,
      Nat.shiftLeft_eq, Nat.mul_comm id.toNat, Nat.mod_eq_of_lt (by simp; omega)]
    rfl
  have hhigh : (aux <<< 24).toNat = 2 ^ 24 * aux.toNat := by
    rw [UInt64.toNat_shiftLeft, Nat.shiftLeft_eq, Nat.mul_comm aux.toNat,
      Nat.mod_eq_of_lt (by simp; omega)]
    rfl
  rw [UInt64.toNat_or, hlow, hhigh, Nat.or_comm, ← Nat.two_pow_add_eq_or_of_lt (by omega)]
  omega

/-- A signal within its bounds is decoded again. -/
lemma decode_encode (h : InSignal typ id aux) :
    ∃ s, encodeFallbackSignal typ id aux = .ok s ∧ decodeFallbackSignal s = (typ, id, aux) := by
  have hpacked := toNat_packed h
  obtain ⟨htyp, hid, haux⟩ := h
  have hcall := @and_not_mask id callMask 21 rfl hid
  have hkind := @and_not_mask typ 7 3 rfl htyp
  refine ⟨typ ||| id <<< 3 ||| aux <<< 24, ?_, ?_⟩
  · simp [encodeFallbackSignal, failIf, hcall, hkind]
    rfl
  · have hmask : ∀ x : UInt64, (x &&& callMask).toNat = x.toNat % 2 ^ 21 :=
      fun x => by rw [UInt64.toNat_and]; exact Nat.and_two_pow_sub_one_eq_mod _ 21
    have hseven : ∀ x : UInt64, (x &&& 7).toNat = x.toNat % 2 ^ 3 :=
      fun x => by rw [UInt64.toNat_and]; exact Nat.and_two_pow_sub_one_eq_mod _ 3
    simp only [decodeFallbackSignal, Prod.mk.injEq, ← UInt64.toNat_inj, hmask, hseven,
      UInt64.toNat_shiftRight, hpacked, Nat.shiftRight_eq_div_pow]
    refine ⟨by omega, ?_, ?_⟩
    · show (typ.toNat + 2 ^ 3 * id.toNat + 2 ^ 24 * aux.toNat) / 2 ^ 3 % 2 ^ 21 = id.toNat
      omega
    · show (typ.toNat + 2 ^ 3 * id.toNat + 2 ^ 24 * aux.toNat) / 2 ^ 24 = aux.toNat
      omega

/-! ## The arguments of a call -/

/-- What a `FlagsType` has besides the common part. -/
structure FlagsValues where
  vals : List UInt64
  bitMask : Bool

/-- `flagsOf` are the values of the flags types, `resources` the calls that created the results. -/
structure SignalEnv where
  flagsOf : IntTypeCommon → FlagsValues
  resources : ArgId → Option UInt64

variable (env : SignalEnv)

/-- The bits of a flags argument, behind those that are there already. -/
def SignalEnv.flagBits (t : IntTypeCommon) (val : UInt64) (flags : ℕ) : ℕ :=
  let typ := env.flagsOf t
  if typ.bitMask then
    typ.vals.zipIdx.foldl (fun flags v => if val &&& v.1 ≠ 0 then flags ^^^ 1 <<< (v.2 % 3) else flags)
      flags
  else
    match typ.vals.findIdx? (val == ·) with
    | some i => flags ||| i % 8
    | none => flags

/-- The flags with those of an argument, and the signals of its own that it has. -/
def extractArgSignal (callID : UInt64) (flags : ℕ) :
    Arg → Except SignalPanic (ℕ × List UInt64)
  | .result r =>
    let flags := flags <<< 1
    match r.res with
    | some res =>
      match env.resources res with
      | some ctor => return (flags, [← encodeFallbackSignal fallbackSignalCtor callID ctor])
      | none => return (flags, [])
    | none => return (if r.val ≠ r.typ.default then flags ||| 1 else flags, [])
  | .const _ _ typ val =>
    let flags := flags <<< 3
    match typ with
    | .flags t => return (env.flagBits t val flags, [])
    | .len _ => return (if val = 0 then flags <<< 1 ||| 1 else flags <<< 1, [])
    | _ => return (flags, [])
  | .pointer _ _ _ address vmaSize res =>
    return (if isSpecial address vmaSize res.isSome then flags <<< 1 ||| 1 else flags <<< 1, [])
  | _ => return (flags, [])

/-- The loop of `FallbackSignal` over the arguments of a call. -/
def extractArgs (callID : UInt64) (args : List Arg) : Except SignalPanic (ℕ × List UInt64) :=
  args.foldlM (fun s arg => do
    let (flags, signal) ← extractArgSignal env callID s.1 arg
    return (flags, s.2 ++ signal)) (0, [])

def maxArgs : ℕ := 9

variable {env} {flags k : ℕ}

lemma shiftLeft_lt (h : flags < 2 ^ k) (w : ℕ) : flags <<< w < 2 ^ (k + w) := by
  rw [Nat.shiftLeft_eq, Nat.pow_add]
  exact Nat.mul_lt_mul_of_pos_right h (Nat.two_pow_pos w)

/-- A bit more, which may be set. -/
lemma ite_shiftLeft_lt (h : flags < 2 ^ k) (c : Prop) [Decidable c] :
    (if c then flags <<< 1 ||| 1 else flags <<< 1) < 2 ^ (k + 1) := by
  split_ifs
  · exact Nat.or_lt_two_pow (shiftLeft_lt h 1) (Nat.one_lt_two_pow (by omega))
  · exact shiftLeft_lt h 1

/-- The flags stay below their bound. -/
lemma flagBits_lt (h : flags < 2 ^ (k + 3)) (t : IntTypeCommon) (val : UInt64) :
    env.flagBits t val flags < 2 ^ (k + 3) := by
  have hpow : 2 ^ 3 ≤ 2 ^ (k + 3) := Nat.pow_le_pow_right (by omega) (by omega)
  unfold SignalEnv.flagBits
  dsimp only
  split_ifs
  · refine List.foldlRecOn (motive := (· < 2 ^ (k + 3))) _ _ h fun flags h v _ => ?_
    have hbit : 1 <<< (v.2 % 3) < 2 ^ 3 := by
      rw [Nat.one_shiftLeft]
      exact Nat.pow_lt_pow_right (by omega) (by omega)
    split_ifs
    · exact Nat.xor_lt_two_pow h (by omega)
    · exact h
  · split
    · exact Nat.or_lt_two_pow h (by omega)
    · exact h

section

variable {callID : UInt64} (hid : callID.toNat < 2 ^ 21)
  (hres : ∀ res, ∀ ctor ∈ env.resources res, ctor.toNat < 2 ^ 21)

include hid hres

/-- An argument adds at most four bits. -/
lemma extractArgSignal_spec (h : flags < 2 ^ k) (arg : Arg) :
    ∃ flags' signal, extractArgSignal env callID flags arg = .ok (flags', signal) ∧
      flags' < 2 ^ (k + 4) := by
  have hmono : ∀ {x w}, w ≤ 4 → x < 2 ^ (k + w) → x < 2 ^ (k + 4) := fun hw hx =>
    lt_of_lt_of_le hx (Nat.pow_le_pow_right (by omega) (by omega))
  cases arg with
  | result r =>
    unfold extractArgSignal
    dsimp only
    split
    · rename_i res _
      have hflags := hmono (by omega) (shiftLeft_lt h 1)
      split
      · rename_i ctor hctor
        have hctor := hres res ctor hctor
        obtain ⟨s, hs, -⟩ := @decode_encode fallbackSignalCtor callID ctor
          ⟨by decide, hid, by omega⟩
        exact ⟨_, [s], by rw [hs]; rfl, hflags⟩
      · exact ⟨_, [], rfl, hflags⟩
    · exact ⟨_, [], rfl, hmono (by omega) (ite_shiftLeft_lt h _)⟩
  | const _ _ typ val =>
    have hflags := shiftLeft_lt h 3
    cases typ with
    | flags t => exact ⟨_, [], rfl, hmono (by omega) (flagBits_lt hflags t val)⟩
    | len t => exact ⟨_, [], rfl, ite_shiftLeft_lt hflags _⟩
    | _ => exact ⟨_, [], rfl, hmono (by omega) hflags⟩
  | pointer => exact ⟨_, [], rfl, hmono (by omega) (ite_shiftLeft_lt h _)⟩
  | _ => exact ⟨flags, [], rfl, hmono (w := 0) (by omega) h⟩

/-- Four bits of flags for each argument are enough. -/
lemma extractArgs_lt (args : List Arg) :
    ∃ flags signal, extractArgs env callID args = .ok (flags, signal) ∧
      flags < 2 ^ (4 * args.length) := by
  induction args using List.reverseRecOn with
  | nil => exact ⟨0, [], rfl, by simp⟩
  | append_singleton args arg ih =>
    obtain ⟨flags, signal, hargs, hlt⟩ := ih
    obtain ⟨flags', signal', harg, hlt'⟩ := extractArgSignal_spec hid hres hlt arg
    refine ⟨flags', signal ++ signal', ?_, ?_⟩
    · rw [extractArgs, List.foldlM_append]
      rw [extractArgs] at hargs
      rw [hargs]
      simp [harg, bind, Except.bind, pure, Except.pure]
    · rw [List.length_append]
      exact hlt'

end

/-- Signals are told apart by their three numbers, the number of the call and an errno can be read
back, and the flags of a call have room in a signal. -/
theorem fallbackSignal_decodes (h : InSignal typ id aux) :
    ∃ s, encodeFallbackSignal typ id aux = .ok s ∧
      (typ = fallbackSignalErrno ∨ typ = fallbackSignalErrnoBlocked →
        decodeFallbackErrno s = .ok (id, aux)) ∧
      (typ = fallbackSignalCtor ∨ typ = fallbackSignalFlags →
        decodeFallbackErrno s = .ok (id, 0)) ∧
      (∀ typ' id' aux', InSignal typ' id' aux' → encodeFallbackSignal typ' id' aux' = .ok s →
        (typ', id', aux') = (typ, id, aux)) ∧
      ∀ (env : SignalEnv) (args : List Arg), args.length ≤ maxArgs →
        (∀ res, ∀ ctor ∈ env.resources res, ctor.toNat < 2 ^ 21) →
        ∃ flags signal, extractArgs env id args = .ok (flags, signal) ∧ flags < 2 ^ 40 := by
  obtain ⟨s, hs, hdecode⟩ := decode_encode h
  refine ⟨s, hs, ?_, ?_, ?_, ?_⟩
  · intro htyp
    simp [decodeFallbackErrno, hdecode, htyp]
  · intro htyp
    have hne : ¬ (typ = fallbackSignalErrno ∨ typ = fallbackSignalErrnoBlocked) := by
      rcases htyp with rfl | rfl <;> decide
    simp [decodeFallbackErrno, hdecode, htyp, hne]
  · intro typ' id' aux' h' hs'
    obtain ⟨s', hs'', hdecode'⟩ := decode_encode h'
    rw [hs'] at hs''
    cases hs''
    exact hdecode'.symm.trans hdecode
  · intro env args hlen hres
    obtain ⟨flags, signal, hargs, hlt⟩ := extractArgs_lt h.id_lt hres args
    unfold maxArgs at hlen
    exact ⟨flags, signal, hargs, lt_of_lt_of_le hlt (Nat.pow_le_pow_right (by omega) (by omega))⟩

/-- Call 5 with errno 2. -/
theorem fallbackSignal_decodes_errno :
    ∃ s, encodeFallbackSignal fallbackSignalErrno 5 2 = .ok s ∧ decodeFallbackErrno s = .ok (5, 2) := by
  obtain ⟨s, hs, hdecode, -⟩ :=
    @fallbackSignal_decodes fallbackSignalErrno 5 2 ⟨by decide, by decide, by decide⟩
  exact ⟨s, hs, hdecode (.inl rfl)⟩

/-- The last number of a signal for flags is not decoded. -/
theorem fallbackSignal_flags_not_decoded :
    ∃ s, encodeFallbackSignal fallbackSignalFlags 0 1 = .ok s ∧ decodeFallbackErrno s = .ok (0, 0) :=
  ⟨_, rfl, by decide⟩

end KConfuzz
