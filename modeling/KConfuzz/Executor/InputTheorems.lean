import KConfuzz.Exec.DecodingTheorems
import KConfuzz.Executor.Input

/-!
# What the executor reads from a serialized program

At the encoding of an instruction `fetchInstr` gets just that instruction and stops behind it,
and the position after a call starts with its copyout instructions (`copyoutsAt_encodeAll`). So
no reader fails at a position inside a serialized program.
-/

namespace KConfuzz.Executor

open Lib.ExceptFold Lib.Parser Lib.Varint List

variable {target : Target}

lemma parses_readInput (v : UInt64) : Parses readInput () (write v) v () :=
  parses_token (varint_appendVarint v)

lemma parses_readChunk (chunk : InstrChunk) : Parses readChunk () chunk.encode chunk () :=
  parses_word (parses_word (parses_last_word (parses_pure _ _)))

/-! ## Arguments -/

/-- The executor reads the words of an argument. -/
lemma parses_readInstrArg {arg : InstrArg} (hknown : arg.Known)
    (hfits : arg.encode.length < 2 ^ 63) : Parses readInstrArg () arg.encode arg () := by
  cases arg with
  | const info val =>
    refine parses_word ?_
    exact parses_word (parses_last_word (parses_pure _ _))
  | addr32 addr | addr64 addr =>
    refine parses_word ?_
    exact parses_last_word (parses_pure _ _)
  | result info idx opDiv opAdd default =>
    refine parses_word ?_
    exact parses_word (parses_word (parses_word (parses_word (parses_last_word (parses_pure _ _)))))
  | data readable blob =>
    obtain ⟨hsize, hreadable⟩ := dataFlags_spec hfits
    refine parses_word ?_
    refine parses_word ((parses_blob hsize).bind_nil ?_)
    rw [hreadable]
    exact parses_pure _ _
  | csum size kind chunks =>
    have hkind : kind = execArgCsumInet := hknown
    refine parses_word ?_
    refine parses_word (parses_word ?_)
    rw [if_pos hkind]
    refine parses_word ?_
    rw [toNat_wordLength_chunks hfits]
    have htimes := parses_times (fun s _ => s)
      (fun _ chunk (_ : chunk ∈ chunks) => parses_readChunk chunk) ()
    rw [map_id'] at htimes
    exact htimes.bind_nil (parses_pure _ _)

/-! ## Instructions -/

/-- The instruction as the executor gets it: the call properties are of type `int` there. -/
def received : Instr → Instr
  | .setProps props =>
    .setProps
      { props with
        failNth := cInt (UInt64.ofInt props.failNth)
        rerun := cInt (UInt64.ofInt props.rerun) }
  | instr => instr

lemma boolWord_bne_zero (b : Bool) : (boolWord b != 0) = b := by
  cases b <;> rfl

open ExecDecoder (Readable ne_of_lt_length length_lt_of_fits encode_lt_of_mem)

variable {instr : Instr}

/-- The executor reads the words of an instruction. -/
lemma parses_fetchInstr (hreadable : Readable target instr) (hfits : instr.encode.length < 2 ^ 63) :
    Parses fetchInstr () instr.encode (received instr) () := by
  cases instr with
  | eof =>
    refine parses_last_word ?_
    exact parses_pure _ _
  | copyin i =>
    have harg : i.arg.encode.length < 2 ^ 63 := by
      simp only [Instr.encode, length_append] at hfits
      omega
    refine parses_word ?_
    exact parses_word ((parses_readInstrArg hreadable harg).bind_nil (parses_pure _ _))
  | setProps props =>
    refine parses_word ?_
    refine parses_word (parses_word (parses_last_word ?_))
    rw [boolWord_bne_zero]
    exact parses_pure _ _
  | copyout i | kconfuzzConfig i =>
    refine parses_word ?_
    exact parses_word (parses_word (parses_last_word (parses_pure _ _)))
  | call id copyoutIdx args =>
    obtain ⟨hid, hknown⟩ := hreadable
    have hfit := encode_lt_of_mem hfits
    have hlength := length_lt_of_fits hfits
    refine parses_word ?_
    repeat rw [if_neg (ne_of_lt_length hid (by decide))]
    refine parses_word (parses_word ?_)
    rw [toNat_wordLength hlength]
    have htimes := parses_times (fun s _ => s)
      (fun _ arg harg => parses_readInstrArg (hknown arg harg) (hfit arg harg)) ()
    rw [map_id'] at htimes
    exact htimes.bind_nil (parses_pure _ _)

/-! ## Positions in a serialized program -/

/-- Every instruction can be read back, and the encoding is not too long for a word. -/
structure ReadableAll (target : Target) (instrs : List Instr) : Prop where
  readable : ∀ instr ∈ instrs, Readable target instr
  fits : (encodeAll instrs).length < 2 ^ 63

variable {instrs : List Instr}

lemma ReadableAll.append_right {l : List Instr} (h : ReadableAll target (l ++ instrs)) :
    ReadableAll target instrs where
  readable := fun i hi => h.readable i (mem_append_right l hi)
  fits := by
    have := h.fits
    rw [encodeAll_append, length_append] at this
    omega

section

variable (h : ReadableAll target (instr :: instrs))

include h

lemma ReadableAll.tail : ReadableAll target instrs := @append_right _ _ [instr] h

lemma ReadableAll.head_fits : instr.encode.length < 2 ^ 63 := by
  have := h.fits
  rw [encodeAll_cons, length_append] at this
  omega

lemma fetchInstr_encodeAll :
    fetchInstr () (encodeAll (instr :: instrs)) =
      .ok ((received instr, ()), encodeAll instrs) := by
  exact parses_fetchInstr (h.readable instr mem_cons_self) h.head_fits _

end

/-- The copyout instructions at the front. -/
def leadingCopyouts : List Instr → List CopyoutInstr
  | .copyout i :: instrs => i :: leadingCopyouts instrs
  | _ => []

lemma mem_of_mem_leadingCopyouts {i : CopyoutInstr} (h : i ∈ leadingCopyouts instrs) :
    .copyout i ∈ instrs := by
  induction instrs with
  | nil => cases h
  | cons instr instrs ih =>
    cases instr with
    | copyout j =>
      rcases mem_cons.mp h with rfl | h
      · exact mem_cons_self
      · exact mem_cons_of_mem _ (ih h)
    | _ => cases h

lemma exists_first_word (hreadable : Readable target instr) (hkind : ∀ i, instr ≠ .copyout i) :
    ∃ word bytes, instr.encode = write word ++ bytes ∧ word ≠ execInstrCopyout := by
  cases instr with
  | copyout i => exact absurd rfl (hkind i)
  | eof => exact ⟨execInstrEOF, [], (append_nil _).symm, by decide⟩
  | copyin i => exact ⟨execInstrCopyin, _, rfl, by decide⟩
  | setProps props => exact ⟨execInstrSetProps, _, rfl, by decide⟩
  | kconfuzzConfig i => exact ⟨execInstrKConfuzzConfig, _, rfl, by decide⟩
  | call id copyoutIdx args =>
    exact ⟨id, _, rfl, ne_of_lt_length hreadable.1 (by decide)⟩

lemma readCopyouts_of_other (hreadable : Readable target instr) (hkind : ∀ i, instr ≠ .copyout i)
    (fuel : ℕ) (rest : List UInt8) :
    ∃ rest', readCopyouts (fuel + 1) () (instr.encode ++ rest) = .ok (([], ()), rest') := by
  obtain ⟨word, bytes, hencode, hword⟩ := exists_first_word hreadable hkind
  have hparse : Parses (readCopyouts (fuel + 1)) () (write word) [] () := by
    refine (parses_readInput word).bind_nil ?_
    rw [if_neg hword]
    exact parses_pure _ _
  exact ⟨bytes ++ rest, by rw [hencode, append_assoc]; exact hparse _⟩

/-- With enough fuel the reader gets the copyout instructions in front of one of another kind. -/
lemma readCopyouts_encodeAll (h : ReadableAll target instrs) (heof : .eof ∈ instrs) {fuel : ℕ}
    (hfuel : instrs.length ≤ fuel) :
    ∃ rest, readCopyouts fuel () (encodeAll instrs) = .ok ((leadingCopyouts instrs, ()), rest) := by
  induction instrs generalizing fuel with
  | nil => cases heof
  | cons instr instrs ih =>
    obtain ⟨fuel, rfl⟩ : ∃ n, fuel = n + 1 := Nat.exists_eq_add_of_le' (by
      rw [length_cons] at hfuel
      omega)
    rw [encodeAll_cons]
    cases instr with
    | copyout i =>
      have heof' : .eof ∈ instrs := (mem_cons.mp heof).resolve_left (by simp)
      obtain ⟨rest, hrest⟩ := ih h.tail heof' (Nat.le_of_succ_le_succ hfuel)
      refine ⟨rest, ?_⟩
      rw [readCopyouts, Instr.encode, append_assoc, (parses_readInput _).bind_apply,
        if_pos rfl, append_assoc, (parses_readInput _).bind_apply, append_assoc,
        (parses_readInput _).bind_apply, (parses_readInput _).bind_apply]
      simp only [bind, StateT.bind, Except.bind, hrest]
      rfl
    | copyin i | setProps props | kconfuzzConfig i | call id copyoutIdx args | eof =>
      exact readCopyouts_of_other (h.readable _ mem_cons_self) (by simp) fuel _

lemma copyoutsAt_encodeAll (h : ReadableAll target instrs) (heof : .eof ∈ instrs) :
    copyoutsAt (encodeAll instrs) = .ok (leadingCopyouts instrs) := by
  have hfuel : instrs.length ≤ (encodeAll instrs).length :=
    length_le_length_flatMap Instr.encode_length_pos instrs
  obtain ⟨rest, hrest⟩ := readCopyouts_encodeAll h heof hfuel
  rw [copyoutsAt, hrest]
  rfl

end KConfuzz.Executor
